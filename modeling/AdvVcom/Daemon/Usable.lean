/-
# `AdvVcom.Daemon.Usable` — what `vc_connect` returns

The call is followed by assertions about the descriptors it holds: the sockets still
open are those on the wait list (`Trying`), and one more during an attempt
(`Attempting`) or once a connection is up (`Direct`).  Whether `sk` holds a closed
number is read off the last attempt.  Connections come up or fail at any time, so
every assertion has to be one that this does not break (`Abides`).

**Proved here.**

    what `_create_sklist` leaves behind               (`wp_createSklist`)
    the wait ends, the wait list is closed            (`wp_waitClients`, `wp_closeClients`)
    usable exactly when none of the three happened    (`vc_connect_usable`)
    the three happen                                  (`vc_connect_misses`)
-/
import AdvVcom.Daemon.Connect
import Mathlib.Data.List.Perm.Basic

namespace AdvVcom

open Lib

/-! ## Assertions -/

/-- The sockets still open are those with the numbers `fds`, and nothing else was
closed. -/
structure Held (fds : List Int) (w : Kernel) : Prop where
  perm : w.fds.Perm fds
  nodup : fds.Nodup
  nonneg : ∀ fd ∈ fds, 0 ≤ fd
  plain : ∀ s ∈ w.opened, s.nodelay = false
  stray : w.stray = []

/-- The connection of socket `fd` is in one of the states `P`. -/
def Linked (P : Link → Prop) (fd : Int) (w : Kernel) : Prop :=
  ∀ s ∈ w.opened, s.fd = fd → P s.link

section
variable {w : Kernel} {fd : Int} {f : Sock → Sock} {fds : List Int} {P : Link → Prop}

theorem Kernel.fds_update (hf : ∀ s, (f s).fd = s.fd) : (w.update fd f).fds = w.fds := by
  simp only [Kernel.fds, Kernel.update, List.map_map]
  refine List.map_congr_left fun s _ => ?_
  simp only [Function.comp]
  split
  · exact hf s
  · rfl

theorem Kernel.mem_update {s : Sock} (h : s ∈ (w.update fd f).opened) :
    ∃ s₀ ∈ w.opened, s = if s₀.fd = fd then f s₀ else s₀ := by
  obtain ⟨s₀, hs₀, rfl⟩ := List.mem_map.mp h
  exact ⟨s₀, hs₀, rfl⟩

theorem Kernel.tries_close : (w.close fd).tries = w.tries := by
  unfold Kernel.close; split <;> rfl

/-- A call on a number that is not open changes nothing. -/
theorem Kernel.update_of_not_mem (h : fd ∉ w.fds) : w.update fd f = w := by
  have hmap : (w.opened.map fun s => if s.fd = fd then f s else s) = w.opened := by
    refine (List.map_congr_left fun s hs => ?_).trans (List.map_id _)
    rw [if_neg fun he => h (List.mem_map.mpr ⟨s, hs, he⟩)]
    rfl
  simp only [Kernel.update, hmap]

theorem Held.update (h : Held fds w) (hf : ∀ s, (f s).fd = s.fd)
    (hd : ∀ s, (f s).nodelay = s.nodelay) : Held fds (w.update fd f) where
  perm := by rw [Kernel.fds_update hf]; exact h.perm
  nodup := h.nodup
  nonneg := h.nonneg
  plain := by
    intro s hs
    obtain ⟨s₀, hs₀, rfl⟩ := Kernel.mem_update hs
    split
    · rw [hd]; exact h.plain s₀ hs₀
    · exact h.plain s₀ hs₀
  stray := h.stray

theorem Held.of_perm {fds' : List Int} (h : Held fds w) (hp : fds.Perm fds') : Held fds' w where
  perm := h.perm.trans hp
  nodup := hp.nodup_iff.mp h.nodup
  nonneg := fun fd hfd => h.nonneg fd (hp.mem_iff.mpr hfd)
  plain := h.plain
  stray := h.stray

theorem Held.push (h : Held fds w) (hfd : 0 ≤ fd) (hnew : fd ∉ w.fds) :
    Held (fd :: fds) (w.push fd) where
  perm := by
    have hmap : (w.push fd).fds = w.fds ++ [fd] := List.map_append
    rw [hmap]
    exact (List.perm_append_singleton fd w.fds).trans (h.perm.cons fd)
  nodup := List.nodup_cons.mpr ⟨fun hm => hnew (h.perm.mem_iff.mpr hm), h.nodup⟩
  nonneg := by
    intro x hx
    cases List.mem_cons.mp hx with
    | inl he => rw [he]; exact hfd
    | inr hm => exact h.nonneg x hm
  plain := by
    intro s hs
    cases List.mem_append.mp hs with
    | inl hm => exact h.plain s hm
    | inr hm => rw [List.mem_singleton.mp hm]
  stray := h.stray

/-- Closing a socket the call holds. -/
theorem Held.close (h : Held (fd :: fds) w) : Held fds (w.close fd) := by
  have hmem : fd ∈ w.fds := h.perm.mem_iff.mpr (List.mem_cons_self ..)
  have hopen : (w.close fd).opened = w.opened.filter fun s => s.fd ≠ fd := by
    rw [Kernel.close, if_pos hmem]
  have hnot := (List.nodup_cons.mp h.nodup).1
  refine ⟨?_, (List.nodup_cons.mp h.nodup).2,
    fun x hx => h.nonneg x (List.mem_cons_of_mem _ hx), ?_, ?_⟩
  · have hfilter : (w.close fd).fds = w.fds.filter (· ≠ fd) := by
      rw [Kernel.fds, hopen, Kernel.fds, List.filter_map]
      rfl
    have hrest : (fd :: fds).filter (· ≠ fd) = fds := by
      rw [List.filter_cons_of_neg (by simp), List.filter_eq_self]
      exact fun x hx => decide_eq_true fun he => hnot (he ▸ hx)
    rw [hfilter]
    exact (h.perm.filter _).trans (by rw [hrest])
  · intro s hs
    rw [hopen] at hs
    exact h.plain s (List.mem_of_mem_filter hs)
  · rw [Kernel.close, if_pos hmem]
    exact h.stray

theorem Held.note (h : Held fds w) (a : Attempt) : Held fds (w.note a) :=
  ⟨h.perm, h.nodup, h.nonneg, h.plain, h.stray⟩

theorem Linked.close (h : Linked P fd w) (x : Int) : Linked P fd (w.close x) := by
  intro s hs
  refine h s ?_
  rw [Kernel.close] at hs
  split at hs
  · exact List.mem_of_mem_filter hs
  · exact hs

/-- A call on another socket. -/
theorem Linked.update_other {x : Int} (h : Linked P fd w) (hne : fd ≠ x)
    (hf : ∀ s, (f s).fd = s.fd) : Linked P fd (w.update x f) := by
  intro s hs he
  obtain ⟨s₀, hs₀, rfl⟩ := Kernel.mem_update hs
  by_cases hx : s₀.fd = x
  · rw [if_pos hx, hf, hx] at he
    exact absurd he.symm hne
  · rw [if_neg hx] at he ⊢
    exact h s₀ hs₀ he

/-- A call on the socket itself. -/
theorem Linked.update_self (hl : ∀ s, P (f s).link) :
    Linked P fd (w.update fd f) := by
  intro s hs he
  obtain ⟨s₀, hs₀, rfl⟩ := Kernel.mem_update hs
  by_cases hx : s₀.fd = fd
  · rw [if_pos hx]
    exact hl s₀
  · rw [if_neg hx] at he
    exact absurd he hx

theorem Linked.update {x : Int} (h : Linked P fd w) (hf : ∀ s, (f s).fd = s.fd)
    (hl : ∀ s, P s.link → P (f s).link) : Linked P fd (w.update x f) := by
  intro s hs he
  obtain ⟨s₀, hs₀, rfl⟩ := Kernel.mem_update hs
  by_cases hx : s₀.fd = x
  · rw [if_pos hx] at he ⊢
    rw [hf] at he
    exact hl s₀ (h s₀ hs₀ he)
  · rw [if_neg hx] at he ⊢
    exact h s₀ hs₀ he

end

/-! ## Calls -/

/-- Connections that come up or fail do not break `P`. -/
def Abides (P : Kernel → Prop) : Prop := ∀ w fd ok, P w → P (w.settle fd ok)

section
variable {P Q : Kernel → Prop} {fds : List Int}

theorem Abides.and (hP : Abides P) (hQ : Abides Q) : Abides fun w => P w ∧ Q w :=
  fun w fd ok h => ⟨hP w fd ok h.1, hQ w fd ok h.2⟩

theorem Abides.tries (R : List Attempt → Prop) : Abides fun w => R w.tries :=
  fun _ _ _ h => h

theorem Abides.held : Abides (Held fds) := by
  intro w fd ok h
  refine h.update (fun s => ?_) (fun s => ?_)
  · split <;> rfl
  · split <;> rfl

/-- A set of states that holds the two ends of a connection under way, if it holds
that. -/
theorem Abides.linked {L : Link → Prop} {fd : Int}
    (hL : L .inProgress → L .up ∧ L .failed) : Abides (Linked L fd) := by
  intro w x ok h
  refine h.update (fun s => ?_) (fun s hs => ?_)
  · split <;> rfl
  · split
    · rename_i hlink
      rw [hlink] at hs
      cases ok with
      | true => exact (hL hs).1
      | false => exact (hL hs).2
    · exact hs

theorem Abides.linked_up {fd : Int} : Abides (Linked (· = .up) fd) :=
  .linked fun h => nomatch h

theorem Abides.linked_begun {fd : Int} : Abides (Linked (· ≠ .idle) fd) :=
  .linked fun _ => ⟨nofun, nofun⟩

theorem Abides.forall_mem {R : Int → Kernel → Prop} (hR : ∀ c, Abides (R c)) :
    Abides fun w => ∀ c ∈ fds, R c w :=
  fun w fd ok h c hc => hR c w fd ok (h c hc)

end

/-- A call: what holds when it is made, and abides, holds when it is answered. -/
theorem wp_sys {e : SockReq} {Q : e.Rep → List Int → Kernel → Prop} {cs : List Int}
    {w : Kernel} (P : Kernel → Prop) (habides : Abides P) (hP : P w)
    (hQ : ∀ w r w', P w → Kernel.answers w e r w' → Q r cs w') :
    (sys e).wp kernel (fun _ _ => True) Q cs w := by
  refine Act.wp_request_of (𝓔 := kernel) P hP ?_ (fun _ _ => trivial) hQ
  rintro w w' h ⟨fd, ok, rfl⟩
  exact habides w fd ok h

/-- `vc_config_sock` changes nothing but the flag, and that only of an open socket. -/
theorem wp_vcConfigSock {sk : Int} {o : SkOpt} {Q : Int → List Int → Kernel → Prop}
    {cs : List Int} {w : Kernel} (P : Kernel → Prop) (habides : Abides P) (hP : P w)
    (hset : ∀ w r, P w → Q r cs (w.update sk fun s => { s with nonblock := o != .block })) :
    (vcConfigSock sk o).wp kernel (fun _ _ => True) Q cs w := by
  rw [vcConfigSock, vcSockEnblock, Act.wp_bind]
  -- whether the number is open does not change while the flags are read
  refine wp_sys (fun w => P w) habides hP ?_
  rintro w r w' hP ⟨rfl, rfl⟩
  cases hfind : w'.opened.find? (fun s => decide (s.fd = sk)) with
  | none =>
      have hout : sk ∉ w'.fds := by
        intro hm
        obtain ⟨s, hs, he⟩ := List.mem_map.mp hm
        have hno := List.find?_eq_none.mp hfind s hs
        simp [he] at hno
      have hsame := hset w' (-1) hP
      rw [Kernel.update_of_not_mem hout] at hsame
      exact hsame
  | some s =>
      show (_ >>= _ : Dial Int).wp kernel _ Q cs w'
      rw [Act.wp_bind]
      refine wp_sys (fun w => P w) habides hP ?_
      rintro w ok w' hP ⟨-, rfl⟩
      exact hset w _ hP

/-! ## Starting the connections -/

/-- Between two attempts: all that is open waits on the list, no connection is up,
and `sk` is a closed number exactly if the last attempt failed in `bind`. -/
structure Trying (sk : Int) (cs : List Int) (w : Kernel) : Prop where
  held : Held cs w
  begun : ∀ c ∈ cs, Linked (· ≠ .idle) c w
  fresh : .connected ∉ w.tries
  waiting : .waiting ∈ w.tries ↔ cs ≠ []
  last : sk < 0 ↔ w.tries.getLast? ≠ some .unbound

/-- In an attempt: beside the list there is the socket `sk`. -/
structure Attempting (sk : Int) (cs : List Int) (w : Kernel) : Prop where
  held : Held (sk :: cs) w
  begun : ∀ c ∈ cs, Linked (· ≠ .idle) c w
  fresh : .connected ∉ w.tries
  waiting : .waiting ∈ w.tries ↔ cs ≠ []

/-- A connection was up at once. -/
structure Direct (sk : Int) (cs : List Int) (w : Kernel) : Prop where
  held : Held (sk :: cs) w
  up : Linked (· = .up) sk w
  last : w.tries.getLast? = some .connected
  waiting : .waiting ∈ w.tries ↔ cs ≠ []

section
variable {sk : Int} {cs : List Int} {w : Kernel}

theorem Abides.trying : Abides (Trying sk cs) := fun w fd ok h =>
  ⟨Abides.held w fd ok h.held,
    Abides.forall_mem (fun _ => Abides.linked_begun) w fd ok h.begun, h.fresh, h.waiting, h.last⟩

theorem Abides.attempting : Abides (Attempting sk cs) := fun w fd ok h =>
  ⟨Abides.held w fd ok h.held,
    Abides.forall_mem (fun _ => Abides.linked_begun) w fd ok h.begun, h.fresh, h.waiting⟩

theorem Trying.push {fd : Int} (h : Trying sk cs w) (hfd : 0 ≤ fd) (hnew : fd ∉ w.fds) :
    Attempting fd cs (w.push fd) where
  held := h.held.push hfd hnew
  begun := by
    intro c hc s hs he
    cases List.mem_append.mp hs with
    | inl hm => exact h.begun c hc s hm he
    | inr hm =>
        rw [List.mem_singleton.mp hm] at he
        have hne : c ∉ w.fds := by rw [← he]; exact hnew
        exact absurd (h.held.perm.mem_iff.mpr hc) hne
  fresh := h.fresh
  waiting := h.waiting

theorem Trying.noSocket {r : Int} (h : Trying sk cs w) (hr : r < 0) :
    Trying r cs (w.note .noSocket) where
  held := h.held.note _
  begun := h.begun
  fresh := by simp [Kernel.note, h.fresh]
  waiting := by simp [Kernel.note, h.waiting]
  last := by simp [Kernel.note, hr]

/-- Every call on the socket of the attempt leaves the others alone. -/
theorem Attempting.update {f : Sock → Sock} (h : Attempting sk cs w)
    (hf : ∀ s, (f s).fd = s.fd) (hd : ∀ s, (f s).nodelay = s.nodelay) :
    Attempting sk cs (w.update sk f) where
  held := h.held.update hf hd
  begun := by
    intro c hc
    have hne : c ≠ sk := fun he => (List.nodup_cons.mp h.held.nodup).1 (he ▸ hc)
    exact (h.begun c hc).update_other hne hf
  fresh := h.fresh
  waiting := h.waiting

/-- The attempt has failed with `a`, and its socket is about to be closed. -/
structure Failing (a : Attempt) (sk : Int) (cs : List Int) (w : Kernel) : Prop
    extends Attempting sk cs w where
  last : w.tries.getLast? = some a

theorem Abides.failing {a : Attempt} : Abides (Failing a sk cs) := fun w fd ok h =>
  ⟨Abides.attempting w fd ok h.toAttempting, h.last⟩

theorem Attempting.failing {a : Attempt} (h : Attempting sk cs w) (hc : a ≠ .connected)
    (hw : a ≠ .waiting) : Failing a sk cs (w.note a) where
  held := h.held.note a
  begun := h.begun
  fresh := by simp [Kernel.note, h.fresh, hc.symm]
  waiting := by simp [Kernel.note, h.waiting, hw.symm]
  last := by simp [Kernel.note]

theorem Failing.close {a : Attempt} {sk' : Int} (h : Failing a sk cs w)
    (hsk : sk' < 0 ↔ a ≠ .unbound) : Trying sk' cs (w.close sk) where
  held := h.held.close
  begun := fun c hc => (h.begun c hc).close sk
  fresh := by rw [Kernel.tries_close]; exact h.fresh
  waiting := by rw [Kernel.tries_close]; exact h.waiting
  last := by rw [Kernel.tries_close, h.last, hsk, ne_eq, ne_eq, Option.some.injEq]

theorem Attempting.waits (h : Attempting sk cs w) {f : Sock → Sock}
    (hf : ∀ s, (f s).fd = s.fd) (hd : ∀ s, (f s).nodelay = s.nodelay)
    (hl : ∀ s, (f s).link = .inProgress) :
    Trying (-1) (cs ++ [sk]) ((w.update sk f).note .waiting) where
  held := ((h.update hf hd).held.of_perm (List.perm_append_singleton sk cs).symm).note _
  begun := by
    intro c hc
    cases List.mem_append.mp hc with
    | inl hm => exact (h.update hf hd).begun c hm
    | inr hm =>
        rw [List.mem_singleton.mp hm]
        have hbegun : Linked (· ≠ .idle) sk (w.update sk f) :=
          Linked.update_self fun s => by rw [hl]; nofun
        exact hbegun
  fresh := by simp [Kernel.note, Kernel.update, h.fresh]
  waiting := by simp [Kernel.note]
  last := by simp [Kernel.note]

theorem Attempting.connects (h : Attempting sk cs w) {f : Sock → Sock}
    (hf : ∀ s, (f s).fd = s.fd) (hd : ∀ s, (f s).nodelay = s.nodelay)
    (hl : ∀ s, (f s).link = .up) : Direct sk cs ((w.update sk f).note .connected) where
  held := (h.update hf hd).held.note _
  up := by
    have hup : Linked (· = .up) sk (w.update sk f) := Linked.update_self hl
    exact hup
  last := by simp [Kernel.note]
  waiting := by simp [Kernel.note, Kernel.update, h.waiting]

end

section
variable {cs : List Int} {w : Kernel}

/-- **The loop over the addresses**, from any point of it. -/
theorem wp_tryAddrs (ifa : Ifaddr) (family : Nat) (addrs : List AddrInfo) {sk : Int}
    (h : Trying sk cs w) :
    (tryAddrs ifa family addrs sk).wp kernel (fun _ _ => True)
      (fun sk cs w => Trying sk cs w ∨ Direct sk cs w) cs w := by
  induction addrs generalizing sk cs w with
  | nil => exact .inl h
  | cons ptr rest ih =>
      rw [tryAddrs, Act.wp_ite]
      split
      · exact ih h
      rw [Act.wp_bind]
      refine wp_sys (Trying sk cs) Abides.trying h ?_
      rintro w fd w' h hr
      cases hr with
      | inl hnone =>
          obtain ⟨hneg, rfl⟩ := hnone
          rw [if_pos hneg]
          exact ih (h.noSocket hneg)
      | inr hsock =>
          obtain ⟨hpos, hnew, rfl⟩ := hsock
          rw [if_neg (Int.not_lt.mpr hpos), Act.wp_bind]
          refine wp_sys (Attempting fd cs) Abides.attempting (h.push hpos hnew) ?_
          rintro w bound w' h rfl
          cases bound with
          | false =>
              show (_ >>= _ : Dial Int).wp kernel _ _ cs _
              rw [Act.wp_bind]
              refine wp_sys (Failing .unbound fd cs) Abides.failing
                (h.failing nofun nofun) ?_
              rintro w _ w' h rfl
              refine ih (h.close ?_)
              exact ⟨fun hlt => absurd hpos (Int.not_le.mpr hlt), fun hne => absurd rfl hne⟩
          | true =>
              show (_ >>= _ : Dial Int).wp kernel _ _ cs _
              rw [Act.wp_bind]
              refine wp_vcConfigSock (Attempting fd cs) Abides.attempting h ?_
              intro w _ h
              rw [Act.wp_bind]
              refine wp_sys (Attempting fd cs) Abides.attempting
                (h.update (fun _ => rfl) (fun _ => rfl)) ?_
              rintro w ret w' h rfl
              cases ret with
              | zero => exact .inr (h.connects (fun _ => rfl) (fun _ => rfl) fun _ => rfl)
              | inProgress => exact ih (h.waits (fun _ => rfl) (fun _ => rfl) fun _ => rfl)
              | error =>
                  show (_ >>= _ : Dial Int).wp kernel _ _ cs _
                  rw [Act.wp_bind]
                  have hupd := h.update (f := fun s => { s with link := .failed })
                    (fun _ => rfl) (fun _ => rfl)
                  refine wp_sys (Failing .refused fd cs) Abides.failing
                    (hupd.failing nofun nofun) ?_
                  rintro w _ w' h rfl
                  exact ih (h.close (by decide))

theorem wp_createSklist (addr port : String) (ifa : Ifaddr) (h : Trying (-1) cs w) :
    (createSklist addr port ifa).wp kernel (fun _ _ => True)
      (fun sk cs w => Trying sk cs w ∨ Direct sk cs w) cs w := by
  rw [createSklist, Act.wp_bind]
  refine wp_sys (Trying (-1) cs) Abides.trying h ?_
  rintro w result w' h rfl
  cases result with
  | none => exact .inl h
  | some addrs => exact wp_tryAddrs ifa _ addrs h

theorem Trying.again {sk : Int} (h : Trying sk cs w) (hsk : sk < 0) : Trying (-1) cs w :=
  ⟨h.held, h.begun, h.fresh, h.waiting, (iff_of_true hsk (by decide)).symm.trans h.last⟩

theorem Direct.nonneg {sk : Int} (h : Direct sk cs w) : 0 ≤ sk :=
  h.held.nonneg sk (List.mem_cons_self ..)

theorem wp_tryIfaddr (ipRed : Option String) (service : String) (ifa : Ifaddr) (addr : String)
    (h : Trying (-1) cs w) :
    (tryIfaddr ipRed service ifa addr).wp kernel (fun _ _ => True)
      (fun r cs w => Trying r.2 cs w ∨ Direct r.2 cs w) cs w := by
  rw [tryIfaddr, Act.wp_bind]
  refine Act.wp_mono (wp_createSklist addr service ifa h) fun sk cs w h => ?_
  rw [Act.wp_ite]
  split
  · rename_i hneg
    cases ipRed with
    | none => exact h
    | some red =>
        have htrying : Trying (-1) cs w := by
          cases h with
          | inl htry => exact htry.again hneg
          | inr hdirect => exact absurd hdirect.nonneg (Int.not_le.mpr hneg)
        show (_ >>= _ : Dial (String × Int)).wp kernel _ _ cs w
        rw [Act.wp_bind]
        exact wp_createSklist red service ifa htrying
  · exact h

/-- **The loop over the interfaces.**  Without one, `sk` stays what it was. -/
theorem wp_tryIfaddrs (ipRed : Option String) (service : String) (ifaddr : List Ifaddr)
    (addr : String) {sk : Int} (h : Trying (-1) cs w) :
    (tryIfaddrs ipRed service ifaddr addr sk).wp kernel (fun _ _ => True)
      (fun sk' cs' w' => (ifaddr = [] ∧ sk' = sk ∧ Trying (-1) cs' w' ∧ cs' = cs) ∨
        (ifaddr ≠ [] ∧ (Trying sk' cs' w' ∨ Direct sk' cs' w'))) cs w := by
  induction ifaddr generalizing addr sk cs w with
  | nil => exact .inl ⟨rfl, rfl, h, rfl⟩
  | cons ifa rest ih =>
      rw [tryIfaddrs, Act.wp_bind]
      refine Act.wp_mono (wp_tryIfaddr ipRed service ifa addr h) fun r cs w h => ?_
      obtain ⟨addr, sk⟩ := r
      show (if sk ≥ 0 then (pure sk : Dial Int)
        else tryIfaddrs ipRed service rest addr sk).wp kernel _ _ cs w
      rw [Act.wp_ite]
      split
      · exact .inr ⟨List.cons_ne_nil _ _, h⟩
      · rename_i hneg
        have hlt : sk < 0 := Int.not_le.mp hneg
        have htrying : Trying sk cs w := by
          cases h with
          | inl htry => exact htry
          | inr hdirect => exact absurd hdirect.nonneg (Int.not_le.mpr hlt)
        refine Act.wp_mono (ih addr (htrying.again hlt)) fun sk' cs' w' hq => ?_
        refine .inr ⟨List.cons_ne_nil _ _, ?_⟩
        cases hq with
        | inl hnil =>
            -- this was the last interface
            obtain ⟨-, rfl, htry, rfl⟩ := hnil
            exact .inl ⟨htry.held, htry.begun, htry.fresh, htry.waiting,
              (iff_of_true hlt (by decide)).trans htry.last⟩
        | inr hrest => exact hrest.2

end

/-! ## Waiting for one of them -/

/-- What the wait keeps: the sockets `fds`, those on the list with a connection begun,
and the attempts as they were. -/
structure Waiting (fds cs : List Int) (t : List Attempt) (w : Kernel) : Prop where
  held : Held fds w
  begun : ∀ c ∈ cs, Linked (· ≠ .idle) c w
  tries : w.tries = t

section
variable {cs fds : List Int} {t : List Attempt} {w : Kernel}

theorem Abides.waiting : Abides (Waiting fds cs t) := fun w fd ok h =>
  ⟨Abides.held w fd ok h.held,
    Abides.forall_mem (fun _ => Abides.linked_begun) w fd ok h.begun, h.tries⟩

/-- The connections of `cs` are no longer under way. -/
def Ripe (cs : List Int) (w : Kernel) : Prop := ∀ c ∈ cs, Linked (· ≠ .inProgress) c w

theorem Abides.ripe : Abides (Ripe cs) :=
  Abides.forall_mem fun _ => .linked fun h => absurd rfl h

theorem wp_sockErr {c : Int} {Q : Bool → List Int → Kernel → Prop} (P : Kernel → Prop)
    (habides : Abides P) (hP : P w) (herr : ∀ w, P w → Q true cs w)
    (hok : ∀ w, P w → Linked (· ≠ .failed) c w → Q false cs w) :
    (sockErr c).wp kernel (fun _ _ => True) Q cs w := by
  rw [sockErr, Act.wp_bind]
  refine wp_sys P habides hP ?_
  rintro w arg w' hP ⟨rfl, hlink⟩
  cases arg with
  | none => exact herr w' hP
  | some arg =>
      show Q (arg != 0) cs w'
      by_cases hzero : arg = 0
      · rw [hzero]
        exact hok w' hP (hlink (by rw [hzero]))
      · have hne : (arg != 0) = true := by simpa using hzero
        rw [hne]
        exact herr w' hP

/-- The outcome of a round that has still to look at `k` ready clients: a connection is
up, or all of them are gone. -/
def Picked (sk : Int) (cs : List Int) (t : List Attempt) (k : Nat) (sk' : Int)
    (cs' : List Int) (w' : Kernel) : Prop :=
  (Waiting (sk' :: cs') cs' t w' ∧ Linked (· = .up) sk' w') ∨
    (sk' = sk ∧ cs'.length + k = cs.length ∧ Waiting cs' cs' t w')

theorem Waiting.erase {c : Int} (h : Waiting cs cs t w) (hc : c ∈ cs) :
    Waiting (c :: cs.erase c) (cs.erase c) t w :=
  ⟨h.held.of_perm (List.perm_cons_erase hc), fun x hx => h.begun x (List.mem_of_mem_erase hx),
    h.tries⟩

theorem Waiting.close {c : Int} (h : Waiting (c :: fds) cs t w) :
    Waiting fds cs t (w.close c) :=
  ⟨h.held.close, fun x hx => (h.begun x hx).close c, by rw [Kernel.tries_close]; exact h.tries⟩

theorem wp_pickClient (ready todo : List Int) {sk : Int} (h : Waiting cs cs t w)
    (hsub : todo ⊆ cs) (hnodup : todo.Nodup) (hready : Ripe ready w) :
    (pickClient ready todo sk).wp kernel (fun _ _ => True)
      (Picked sk cs t (todo.filter (· ∈ ready)).length) cs w := by
  induction todo generalizing cs w with
  | nil => exact .inr ⟨rfl, rfl, h⟩
  | cons c todo ih =>
      have hc : c ∈ cs := hsub (List.mem_cons_self ..)
      have hrest : todo ⊆ cs := fun x hx => hsub (List.mem_cons_of_mem _ hx)
      obtain ⟨hnot, hnodup⟩ := List.nodup_cons.mp hnodup
      rw [pickClient, Act.wp_ite]
      split
      · rename_i hout
        rw [List.filter_cons_of_neg (by simpa using hout)]
        exact ih h hrest hnodup hready
      rename_i hin
      have hin : c ∈ ready := not_not.mp hin
      rw [Act.wp_bind]
      refine wp_sockErr (fun w => Waiting cs cs t w ∧ Ripe ready w)
        (Abides.waiting.and Abides.ripe) ⟨h, hready⟩ ?_ ?_
      · -- the connection has failed
        rintro w ⟨h, hready⟩
        show (_ >>= _ : Dial Int).wp kernel _ _ cs w
        rw [Act.wp_bind]
        refine wp_sys (fun w => Waiting (c :: cs.erase c) (cs.erase c) t w ∧ Ripe ready w)
          (Abides.waiting.and Abides.ripe) ⟨h.erase hc, hready⟩ ?_
        rintro w _ w' ⟨h, hready⟩ rfl
        have hsub' : todo ⊆ cs.erase c := fun x hx =>
          (List.mem_erase_of_ne fun he : x = c => hnot (he ▸ hx)).mpr (hrest hx)
        have hgo := ih h.close hsub' hnodup fun x hx => (hready x hx).close c
        refine Act.wp_mono hgo fun sk' cs' w' hq => ?_
        cases hq with
        | inl hup => exact .inl hup
        | inr hnone =>
            obtain ⟨hsk, hlen, hw⟩ := hnone
            rw [List.length_erase_of_mem hc] at hlen
            have hpos := List.length_pos_of_mem hc
            rw [List.filter_cons_of_pos (by simpa using hin), List.length_cons]
            exact .inr ⟨hsk, by omega, hw⟩
      · -- it is up
        rintro w ⟨h, hready⟩ hlink
        refine .inl ⟨h.erase hc, fun s hs he => ?_⟩
        have hbegun := h.begun c hc s hs he
        have hripe := hready c hin s hs he
        have hnofail := hlink s hs he
        cases hs : s.link with
        | idle => exact absurd hs hbegun
        | inProgress => exact absurd hs hripe
        | up => rfl
        | failed => exact absurd hs hnofail

/-- **The wait ends**, with a connection that is up or with none. -/
theorem wp_waitClients (fuel : Nat) {sk : Int} (h : Waiting cs cs t w) (hsk : sk < 0)
    (hfuel : cs.length + 2 ≤ fuel) :
    (waitClients fuel sk).wp kernel (fun _ _ => True)
      (fun sk' cs' w' => (sk' < 0 ∧ Waiting cs' cs' t w') ∨
        (Waiting (sk' :: cs') cs' t w' ∧ Linked (· = .up) sk' w')) cs w := by
  induction fuel generalizing sk cs w with
  | zero => omega
  | succ fuel ih =>
      rw [waitClients, if_neg (Int.not_le.mpr hsk), Act.wp_bind]
      show (_ >>= _ : Dial Int).wp kernel _ _ cs w
      rw [Act.wp_bind]
      refine wp_sys (Waiting cs cs t) Abides.waiting h ?_
      rintro w ready w' h hr
      cases ready with
      | none =>
          have hw : w' = w := hr
          rw [hw]
          exact .inl ⟨hsk, h⟩
      | some ready =>
          obtain ⟨rfl, hne, hsub, hripe⟩ := hr
          show (_ >>= _ : Dial Int).wp kernel _ _ cs w'
          rw [Act.wp_bind]
          have hready : Ripe ready w' := fun c hc s hs he => hripe s hs (he ▸ hc)
          refine Act.wp_mono (wp_pickClient ready cs h (fun _ hx => hx) h.held.nodup hready)
            fun sk' cs' w₁ hq => ?_
          cases hq with
          | inl hup =>
              -- the next round sees it and leaves the loop
              obtain ⟨fuel, rfl⟩ : ∃ n, fuel = n + 1 := ⟨fuel - 1, by omega⟩
              have hpos : sk' ≥ 0 := hup.1.held.nonneg sk' (List.mem_cons_self ..)
              rw [waitClients, if_pos hpos]
              exact .inr hup
          | inr hnone =>
              obtain ⟨rfl, hlen, hw⟩ := hnone
              have hsome : 0 < (cs.filter (· ∈ ready)).length := by
                obtain ⟨c, hc⟩ := List.exists_mem_of_ne_nil ready hne
                exact List.length_pos_of_mem
                  (List.mem_filter.mpr ⟨hsub hc, decide_eq_true hc⟩)
              exact ih hw hsk (by omega)

/-- The clients are closed, each once, and the sockets `keep` are left. -/
theorem wp_closeClients (keep : List Int) {L : Link → Prop} {fd : Int}
    (hL : L .inProgress → L .up ∧ L .failed) (h : Held (cs ++ keep) w) (hlink : Linked L fd w)
    (ht : w.tries = t) :
    (closeClients cs).wp kernel (fun _ _ => True)
      (fun _ _ w' => Held keep w' ∧ Linked L fd w' ∧ w'.tries = t) cs w := by
  induction cs generalizing w with
  | nil => exact ⟨h, hlink, ht⟩
  | cons c cs ih =>
      rw [closeClients, Act.wp_bind]
      refine wp_sys (fun w => Held (c :: (cs ++ keep)) w ∧ Linked L fd w ∧ w.tries = t)
        (Abides.held.and ((Abides.linked hL).and (Abides.tries (· = t)))) ⟨h, hlink, ht⟩ ?_
      rintro w _ w' ⟨h, hlink, ht⟩ rfl
      have hgo := ih h.close (hlink.close c) (by rw [Kernel.tries_close]; exact ht)
      show (closeClients cs).wp kernel _ _ ((c :: cs).erase c) _
      rw [List.erase_cons_head]
      exact hgo

end

/-! ## The whole call -/

section
variable {ifaddr : Option (List Ifaddr)} {sk : Int} {t : List Attempt} {w : Kernel}

theorem Held.opened_nil (h : Held [] w) : w.opened = [] :=
  List.map_eq_nil_iff.mp h.perm.eq_nil

theorem Held.opened_singleton {fd : Int} (h : Held [fd] w) : ∃ s, w.opened = [s] ∧ s.fd = fd := by
  have hfds : w.fds = [fd] := List.perm_singleton.mp h.perm
  obtain ⟨s, hs, hfd⟩ := List.map_eq_singleton_iff.mp hfds
  exact ⟨s, hs, hfd⟩

theorem Usable.of_none (h : Held [] w) (hneg : sk < 0) : Usable sk w :=
  ⟨h.stray, .inl ⟨hneg, h.opened_nil⟩⟩

/-- A number that no open socket has is not usable. -/
theorem not_usable_of_none (h : Held [] w) (hpos : 0 ≤ sk) : ¬ Usable sk w := by
  rintro ⟨-, ⟨hneg, -⟩ | ⟨-, s, hs, -⟩⟩
  · omega
  · rw [h.opened_nil] at hs
    exact nomatch hs

/-- Nor is a socket without `TCP_NODELAY`. -/
theorem not_usable_of_plain {fds : List Int} (h : Held fds w) (hpos : 0 ≤ sk) :
    ¬ Usable sk w := by
  rintro ⟨-, ⟨hneg, -⟩ | ⟨-, s, hs, -, -, -, hnodelay⟩⟩
  · omega
  · have hplain := h.plain s (by rw [hs]; exact List.mem_singleton.mpr rfl)
    rw [hplain] at hnodelay
    exact nomatch hnodelay

/-- The last steps, on the one socket left. -/
theorem wp_configConnected {cs : List Int} (h : Held [sk] w) (hup : Linked (· = .up) sk w)
    (ht : w.tries = t) :
    (configConnected sk).wp kernel (fun _ _ => True)
      (fun ret _ w => Usable ret w ∧ w.tries = t) cs w := by
  have hpos := h.nonneg sk (List.mem_cons_self ..)
  rw [configConnected, if_pos hpos, Act.wp_bind]
  refine wp_vcConfigSock (fun w => Held [sk] w ∧ Linked (· = .up) sk w ∧ w.tries = t)
    (Abides.held.and (Abides.linked_up.and (Abides.tries (· = t)))) ⟨h, hup, ht⟩ ?_
  rintro w - ⟨h, hup, ht⟩
  rw [Act.wp_bind]
  -- the flag that was just cleared stays so while connections settle
  refine wp_sys (fun w => Held [sk] w ∧ Linked (· = .up) sk w ∧ w.tries = t ∧
    ∀ s ∈ w.opened, s.nonblock = false) ?_ ⟨h.update (fun _ => rfl) (fun _ => rfl),
      hup.update (fun _ => rfl) (fun _ hs => hs), ht, ?_⟩ ?_
  · refine Abides.held.and (Abides.linked_up.and ((Abides.tries (· = t)).and ?_))
    intro w fd ok hflag s hs
    obtain ⟨s₀, hs₀, rfl⟩ := Kernel.mem_update hs
    have hflag := hflag s₀ hs₀
    split
    · split <;> exact hflag
    · exact hflag
  · intro s hs
    obtain ⟨s₀, hs₀, rfl⟩ := Kernel.mem_update hs
    have hfd : s₀.fd = sk := by
      obtain ⟨s₁, hone, hfd⟩ := h.opened_singleton
      rw [hone] at hs₀
      rw [List.mem_singleton.mp hs₀]
      exact hfd
    rw [if_pos hfd]
    rfl
  · rintro w - w' ⟨h, hup, ht, hflag⟩ rfl
    obtain ⟨s, hone, hfd⟩ := h.opened_singleton
    have hmem : s ∈ w.opened := by rw [hone]; exact List.mem_singleton.mpr rfl
    refine ⟨⟨h.stray, .inr ⟨hpos, { s with nodelay := true }, ?_, hfd, hup s hmem hfd,
      hflag s hmem, rfl⟩⟩, ht⟩
    simp only [Kernel.update, hone, List.map_cons, List.map_nil, if_pos hfd]

/-- With no socket left, the last steps change nothing. -/
theorem wp_configConnected_none {cs : List Int} (h : Held [] w) (ht : w.tries = t) :
    (configConnected sk).wp kernel (fun _ _ => True)
      (fun ret _ w => ret = sk ∧ Held [] w ∧ w.tries = t) cs w := by
  have hnone : ∀ {w : Kernel} {f : Sock → Sock}, Held [] w → w.update sk f = w := fun h =>
    Kernel.update_of_not_mem fun hm => List.not_mem_nil (h.perm.mem_iff.mp hm)
  have habides : Abides fun w => Held [] w ∧ w.tries = t :=
    Abides.held.and (Abides.tries (· = t))
  rw [configConnected, Act.wp_ite]
  split
  · rw [Act.wp_bind]
    refine wp_vcConfigSock _ habides ⟨h, ht⟩ ?_
    rintro w - ⟨h, ht⟩
    rw [hnone h, Act.wp_bind]
    refine wp_sys _ habides ⟨h, ht⟩ ?_
    rintro w - w' ⟨h, ht⟩ rfl
    exact ⟨rfl, by rw [hnone h]; exact h, by rw [hnone h]; exact ht⟩
  · exact ⟨rfl, h, ht⟩

/-- Closing the wait list and the last steps, around the one socket that is up. -/
theorem wp_close_configConnected {cs : List Int} (h : Held (sk :: cs) w)
    (hup : Linked (· = .up) sk w) (ht : w.tries = t) :
    (closeClients cs >>= fun _ => configConnected sk : Dial Int).wp kernel (fun _ _ => True)
      (fun ret _ w => Usable ret w ∧ w.tries = t) cs w := by
  rw [Act.wp_bind]
  have hheld : Held (cs ++ [sk]) w := h.of_perm (List.perm_append_singleton sk cs).symm
  refine Act.wp_mono (wp_closeClients [sk] (nomatch ·) hheld hup ht) ?_
  rintro _ cs' w' ⟨h, hup, ht⟩
  exact wp_configConnected h hup ht

/-- The same around none. -/
theorem wp_close_configConnected_none {cs : List Int} (h : Held cs w) (ht : w.tries = t) :
    (closeClients cs >>= fun _ => configConnected sk : Dial Int).wp kernel (fun _ _ => True)
      (fun ret _ w => ret = sk ∧ Held [] w ∧ w.tries = t) cs w := by
  rw [Act.wp_bind]
  have hheld : Held (cs ++ []) w := by rw [List.append_nil]; exact h
  have hany : Linked (fun _ => True) 0 w := fun _ _ _ => trivial
  refine Act.wp_mono (wp_closeClients [] (fun _ => ⟨trivial, trivial⟩) hheld hany ht) ?_
  rintro _ cs' w' ⟨h, -, ht⟩
  exact wp_configConnected_none h ht

theorem Spared.of_tries {w' : Kernel} (hif : ifaddr ≠ some [])
    (hlast : w.tries.getLast? ≠ some .unbound) (hwait : .connected ∈ w.tries → .waiting ∈ w.tries)
    (ht : w'.tries = w.tries) : Spared ifaddr sk w' := by
  refine ⟨fun he => absurd he hif, ?_, ?_⟩
  · rw [ht]; exact hlast
  · rw [ht]; exact hwait

theorem not_spared_of_unbound (h : w.tries.getLast? = some .unbound) : ¬ Spared ifaddr sk w :=
  fun hs => hs.2.1 h

/-- The wait when `sk` is not negative: there is none. -/
theorem waitClients_nonneg {fuel : Nat} (hpos : 0 ≤ sk) : waitClients (fuel + 1) sk = pure sk := by
  rw [waitClients, if_pos hpos]

theorem wp_awaitConnected_trying {cs : List Int} (h : Trying sk cs w) (hif : ifaddr ≠ some [])
    (sk₀ : Int) :
    (awaitConnected sk).wp kernel (fun _ _ => True)
      (fun ret _ w => Usable ret w ↔ Spared ifaddr sk₀ w) cs w := by
  have hspared : ∀ {w'}, sk < 0 → w'.tries = w.tries → Spared ifaddr sk₀ w' := fun hneg =>
    Spared.of_tries hif (h.last.mp hneg) fun hm => absurd hm h.fresh
  have hstale : 0 ≤ sk → w.tries.getLast? = some .unbound := fun hpos =>
    not_not.mp fun hne => absurd (h.last.mpr hne) (Int.not_lt.mpr hpos)
  rw [awaitConnected, Act.wp_bind, Act.wp_get, Act.wp_ite]
  split
  · rename_i hnil
    -- the early return
    rw [hnil] at h
    by_cases hneg : sk < 0
    · exact iff_of_true (.of_none h.held hneg) (hspared hneg rfl)
    · have hpos := Int.not_lt.mp hneg
      exact iff_of_false (not_usable_of_none h.held hpos) (not_spared_of_unbound (hstale hpos))
  · rw [Act.wp_bind]
    by_cases hneg : sk < 0
    · refine Act.wp_mono (wp_waitClients _ ⟨h.held, h.begun, rfl⟩ hneg (Nat.le_refl _)) ?_
      rintro sk' cs' w' (⟨hneg', hnone⟩ | ⟨hone, hup⟩)
      · refine Act.wp_mono (wp_close_configConnected_none hnone.held hnone.tries) ?_
        rintro ret _ w'' ⟨rfl, hheld, ht⟩
        exact iff_of_true (.of_none hheld hneg') (hspared hneg ht)
      · refine Act.wp_mono (wp_close_configConnected hone.held hup hone.tries) ?_
        rintro ret _ w'' ⟨husable, ht⟩
        exact iff_of_true husable (hspared hneg ht)
    · have hpos := Int.not_lt.mp hneg
      rw [waitClients_nonneg hpos, Act.wp_pure]
      refine Act.wp_mono (wp_close_configConnected_none h.held rfl) ?_
      rintro ret _ w' ⟨rfl, hheld, ht⟩
      refine iff_of_false (not_usable_of_none hheld hpos) (not_spared_of_unbound ?_)
      rw [ht]
      exact hstale hpos

theorem wp_awaitConnected_direct {cs : List Int} (h : Direct sk cs w) (hif : ifaddr ≠ some [])
    (sk₀ : Int) :
    (awaitConnected sk).wp kernel (fun _ _ => True)
      (fun ret _ w => Usable ret w ↔ Spared ifaddr sk₀ w) cs w := by
  have hconnected : Attempt.connected ∈ w.tries := List.mem_of_getLast? h.last
  rw [awaitConnected, Act.wp_bind, Act.wp_get, Act.wp_ite]
  split
  · rename_i hnil
    have hnone : Attempt.waiting ∉ w.tries := fun hm => h.waiting.mp hm hnil
    exact iff_of_false (not_usable_of_plain h.held h.nonneg)
      fun hspared => hnone (hspared.2.2 hconnected)
  · rename_i hsome
    rw [Act.wp_bind, waitClients_nonneg h.nonneg, Act.wp_pure]
    refine Act.wp_mono (wp_close_configConnected h.held h.up rfl) ?_
    rintro ret _ w' ⟨husable, ht⟩
    refine iff_of_true husable (Spared.of_tries hif ?_ (fun _ => h.waiting.mpr hsome) ht)
    rw [h.last]
    nofun

end

/-- At the start nothing is open, and nothing settles. -/
theorem Kernel.trying_start (ifaddr : Option (List Ifaddr)) :
    Trying (-1) [] (Kernel.start ifaddr) where
  held := ⟨.refl _, List.nodup_nil, nofun, nofun, rfl⟩
  begun := nofun
  fresh := nofun
  waiting := by simp [Kernel.start]
  last := by simp [Kernel.start]

/-- **What `vc_connect` returns.**  Whatever the interfaces, the addresses and the
outcomes of the calls: the call ends, and what it returns is usable exactly if none
of the three mishaps came about. -/
theorem vc_connect_usable (ip : String) (ipRed : Option String) (sk : Int)
    (ifaddr : Option (List Ifaddr)) :
    (vcConnect ip ipRed sk).wp kernel (fun _ _ => True)
      (fun ret _ w => Usable ret w ↔ Spared ifaddr sk w) [] (Kernel.start ifaddr) := by
  rw [vcConnect, Act.wp_bind]
  refine wp_sys (fun w => w = Kernel.start ifaddr) ?_ rfl ?_
  · rintro w fd ok rfl
    rfl
  rintro w ifaddr w' rfl ⟨rfl, rfl⟩
  have hstart := Kernel.trying_start ifaddr
  cases ifaddr with
  | none => exact iff_of_true (.of_none hstart.held (by decide)) ⟨nofun, nofun, nofun⟩
  | some ifs =>
      show (_ >>= _ : Dial Int).wp kernel _ _ [] _
      rw [Act.wp_bind]
      refine Act.wp_mono (wp_tryIfaddrs ipRed VC_PROTO_PORT ifs ip hstart) fun sk' cs' w' hq => ?_
      cases hq with
      | inl hnil =>
          obtain ⟨rfl, rfl, htry, rfl⟩ := hnil
          -- no interface: the list is empty, and `sk` is returned as it was
          have hret : (Usable sk' w' ↔ Spared (some []) sk' w') := by
            by_cases hneg : sk' < 0
            · refine iff_of_true (.of_none htry.held hneg) ⟨fun _ => hneg, ?_, ?_⟩
              · exact htry.last.mp (by decide)
              · exact fun hm => absurd hm htry.fresh
            · exact iff_of_false (not_usable_of_none htry.held (Int.not_lt.mp hneg))
                fun hs => hneg (hs.1 rfl)
          exact hret
      | inr hsome =>
          obtain ⟨hne, hd⟩ := hsome
          have hif : some ifs ≠ some [] := fun he => hne (Option.some.inj he)
          cases hd with
          | inl htry => exact wp_awaitConnected_trying htry hif sk
          | inr hdirect => exact wp_awaitConnected_direct hdirect hif sk

/-! ## The three mishaps -/

/-- A host on which every call has one outcome: a device with one address, sockets
with the number 5, `bind` and `connect` as given. -/
def answerBy (bound : Bool) (ret : ConnRet) (w : Kernel) :
    (e : SockReq) → Option (e.Rep × Kernel)
  | .getifaddrs => some (w.ifaddr, w)
  | .getaddrinfo _ _ => some (some [⟨AF_INET, 1, 0, ⟨AF_INET, "10.0.0.1"⟩⟩], w)
  | .socket _ _ _ => if 5 ∈ w.fds then none else some (5, w.push 5)
  | .bind _ _ _ => some (bound, if bound then w else w.note .unbound)
  | .getfl sk => some ((w.opened.find? fun s => s.fd = sk).map Sock.nonblock, w)
  | .setfl sk nonblock =>
      some (decide (sk ∈ w.fds), w.update sk fun s => { s with nonblock })
  | .connect sk _ => some (ret, (w.update sk fun s => { s with link := ret.link }).note ret.attempt)
  | .select _ => some (none, w)
  | .sockError _ => some (none, w)
  | .close sk => some ((), w.close sk)
  | .nodelay sk => some ((), w.update sk fun s => { s with nodelay := true })

theorem answerBy_legal {bound : Bool} {ret : ConnRet} {w w' : Kernel} {e : SockReq} {r : e.Rep}
    (h : answerBy bound ret w e = some (r, w')) : w.answers e r w' := by
  cases e with
  | socket family socktype protocol =>
      simp only [answerBy] at h
      split at h
      · exact nomatch h
      · rename_i hnew
        cases h
        exact .inr ⟨show (0 : Int) ≤ 5 by decide, hnew, rfl⟩
  | select fds => cases h; rfl
  | sockError sk => cases h; exact ⟨rfl, nofun⟩
  | getifaddrs => cases h; exact ⟨rfl, rfl⟩
  | getaddrinfo addr port => cases h; rfl
  | bind sk addr len => cases h; rfl
  | getfl sk => cases h; exact ⟨rfl, rfl⟩
  | setfl sk nonblock => cases h; exact ⟨rfl, rfl⟩
  | connect sk addr => cases h; rfl
  | close sk => cases h; rfl
  | nodelay sk => cases h; rfl

/-- One interface, with an address of the same family as the device's. -/
def eth0 : Ifaddr := ⟨some ⟨AF_INET, "10.0.0.2"⟩⟩

/-- **A call that returns what it should not**: a closed descriptor, a socket that is
neither blocking nor has `TCP_NODELAY`, and what was on the stack. -/
theorem vc_connect_misses :
    (∃ reply w, (∀ {w e r w'}, reply w e = some (r, w') → Kernel.answers w e r w') ∧
      ((vcConnect "10.0.0.1" none (-1)) []).exec reply (.start (some [eth0])) = some (5, [], w) ∧
      w.opened = [] ∧ ¬ Usable 5 w) ∧
    (∃ reply w s, (∀ {w e r w'}, reply w e = some (r, w') → Kernel.answers w e r w') ∧
      ((vcConnect "10.0.0.1" none (-1)) []).exec reply (.start (some [eth0])) = some (5, [], w) ∧
      w.opened = [s] ∧ s.nonblock = true ∧ s.nodelay = false ∧ ¬ Usable 5 w) ∧
    (∃ reply w, (∀ {w e r w'}, reply w e = some (r, w') → Kernel.answers w e r w') ∧
      ((vcConnect "10.0.0.1" none 7) []).exec reply (.start (some [])) = some (7, [], w) ∧
      w.opened = [] ∧ ¬ Usable 7 w) := by
  refine ⟨⟨answerBy false .error, _, answerBy_legal, rfl, rfl, ?_⟩,
    ⟨answerBy true .zero, _, _, answerBy_legal, rfl, rfl, rfl, rfl, ?_⟩,
    ⟨answerBy true .zero, _, answerBy_legal, rfl, rfl, ?_⟩⟩
  · rintro ⟨-, ⟨hneg, -⟩ | ⟨-, s, hs, -⟩⟩
    · exact absurd hneg (by decide)
    · exact nomatch hs
  · rintro ⟨-, ⟨hneg, -⟩ | ⟨-, s, hs, -, -, hblock, -⟩⟩
    · exact absurd hneg (by decide)
    · cases hs
      exact nomatch hblock
  · rintro ⟨-, ⟨hneg, -⟩ | ⟨-, s, hs, -⟩⟩
    · exact absurd hneg (by decide)
    · exact nomatch hs

end AdvVcom
