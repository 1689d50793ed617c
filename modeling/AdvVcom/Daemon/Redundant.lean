/-
# `AdvVcom.Daemon.Redundant` — which address `vc_connect` tries where

Every call of `_create_sklist` begins with one `getaddrinfo`, so a log of the requests
shows the calls: the address, the local addresses the sockets were bound to, and what
became of the attempts.  A visit to an interface is the call or the two calls made for
it.

The variable `addr` of `vc_connect` is set to the redundant address inside the loop over
the interfaces and never set back: the primary address is tried on the first interface
only, and on every later one the redundant address is tried twice.  Besides, a call whose
last attempt failed in `bind` returns the closed number, which the loop takes for a
connection, so the redundant address is not tried there.

**Proved here.**

    what one call leaves in the log                 (`logs_createSklist`)
    what the loop over the interfaces leaves there   (`logs_tryIfaddrs`)
    when the primary address keeps its place         (`primary_kept_iff`)
    two interfaces on which it does not              (`primary_displaced`)
-/
import AdvVcom.Daemon.Connect

namespace AdvVcom

open Lib

/-! ## The log -/

/-- A call of `_create_sklist`: the address it was given, the local addresses its
sockets were bound to, and its attempts, the last one first. -/
structure SkCall where
  addr : String
  froms : List (Option SockAddr)
  tries : List Attempt
  deriving DecidableEq, Repr

/-- The last attempt connected at once. -/
def SkCall.Direct (c : SkCall) : Prop := c.tries.head? = some .connected

/-- The last attempt failed in `bind`. -/
def SkCall.Stale (c : SkCall) : Prop := c.tries.head? = some .unbound

/-- The call was about the address `addr`, on the interface `ifa`. -/
def SkCall.At (c : SkCall) (ifa : Ifaddr) (addr : String) : Prop :=
  c.addr = addr ∧ ∀ a ∈ c.froms, a = ifa.addr

instance (c : SkCall) : Decidable c.Direct := inferInstanceAs (Decidable (_ = _))

instance (c : SkCall) : Decidable c.Stale := inferInstanceAs (Decidable (_ = _))

/-- The interfaces `getifaddrs` told of, and the calls, the last one first. -/
structure DialLog where
  ifaddr : List Ifaddr
  calls : List SkCall
  deriving DecidableEq, Repr

namespace DialLog

/-- Something about the call that is being made. -/
def update (l : DialLog) (f : SkCall → SkCall) : DialLog :=
  match l.calls with
  | [] => l
  | c :: calls => { l with calls := f c :: calls }

def tried (l : DialLog) (a : Attempt) : DialLog := l.update fun c => { c with tries := a :: c.tries }

def note (l : DialLog) : (e : SockReq) → e.Rep → DialLog
  | .getifaddrs, r => { l with ifaddr := r.getD [] }
  | .getaddrinfo addr _, _ => { l with calls := ⟨addr, [], []⟩ :: l.calls }
  | .socket _ _ _, r => if r < 0 then l.tried .noSocket else l
  | .bind _ a _, ok =>
      let l := l.update fun c => { c with froms := a :: c.froms }
      if ok then l else l.tried .unbound
  | .connect _ _, r => l.tried r.attempt
  | _, _ => l

end DialLog

/-! ## What is asked -/

/-- The calls made for one interface. -/
structure Visit where
  ifa : Ifaddr
  primary : SkCall
  redundant : Option SkCall

def Visit.calls (v : Visit) : List SkCall := v.primary :: v.redundant.toList

/-- The primary address was tried there, and the redundant one if there is one and the
primary did not connect at once. -/
def Visit.Fair (ip : String) (ipRed : Option String) (v : Visit) : Prop :=
  v.primary.At v.ifa ip ∧
    match v.redundant with
    | none => ipRed = none ∨ v.primary.Direct
    | some c => ¬ v.primary.Direct ∧ ∃ red, ipRed = some red ∧ c.At v.ifa red

/-- The calls are those of visits, one after the other from the first interface on, each
of them fair. -/
def PrimaryKept (ip : String) (ipRed : Option String) (ifaddr : List Ifaddr)
    (calls : List SkCall) : Prop :=
  ∃ visits : List Visit, visits.map Visit.ifa <+: ifaddr ∧ calls = visits.flatMap Visit.calls ∧
    ∀ v ∈ visits, v.Fair ip ipRed

/-- The loop ends with the first visit: there is no other interface, or a call of that
visit returned a number. -/
def OneVisit (ifaddr : List Ifaddr) (calls : List SkCall) : Prop :=
  ifaddr.length ≤ 1 ∨ ∃ c ∈ calls.take 2, c.Direct ∨ c.Stale

/-- No redundant address; or one that is the primary address again or is not carried
over to a second interface, and no first call of a visit that ends in a failed `bind`. -/
def Undisplaced (ip : String) (ipRed : Option String) (l : DialLog) : Prop :=
  ipRed = none ∨
    ((ipRed = some ip ∨ OneVisit l.ifaddr l.calls.reverse) ∧
      ∀ c, l.calls.head? = some c → c.Stale → l.calls.length % 2 = 0)

/-! ## One call -/

section
variable {l : DialLog} {cs : List Int} {c : SkCall} {calls : List SkCall} {ifas : List Ifaddr}

/-- `vc_config_sock` leaves nothing in the log. -/
theorem logs_vcConfigSock {sk : Int} {o : SkOpt} {Q : Int → List Int → DialLog → Prop}
    (hQ : ∀ r, Q r cs l) : (vcConfigSock sk o).Logs DialLog.note Q cs l := by
  rw [vcConfigSock, vcSockEnblock, Act.logs_bind]
  intro r
  cases r with
  | none => exact hQ _
  | some flags => exact fun ok => hQ _

/-- The call so far: its address and its interface are these, no connection is up, and
`sk` is a number exactly if the last attempt failed in `bind`. -/
structure Calling (ifa : Ifaddr) (addr : String) (sk : Int) (c : SkCall) : Prop where
  at_ : c.At ifa addr
  apart : ¬ c.Direct
  stale : 0 ≤ sk ↔ c.Stale

/-- What a call that returned `sk` leaves in the log. -/
def Called (ifa : Ifaddr) (addr : String) (ifas : List Ifaddr) (calls : List SkCall) (sk : Int)
    (l : DialLog) : Prop :=
  ∃ c : SkCall, l = ⟨ifas, c :: calls⟩ ∧ c.At ifa addr ∧ (0 ≤ sk ↔ c.Direct ∨ c.Stale)

theorem Calling.called {ifa : Ifaddr} {addr : String} {sk : Int} (h : Calling ifa addr sk c) :
    Called ifa addr ifas calls sk ⟨ifas, c :: calls⟩ :=
  ⟨c, rfl, h.at_, h.stale.trans ⟨.inr, fun hd => hd.resolve_left h.apart⟩⟩

/-- **The loop over the addresses**, from any point of it. -/
theorem logs_tryAddrs (ifa : Ifaddr) (addr : String) (family : Nat) (addrs : List AddrInfo)
    {sk : Int} (h : Calling ifa addr sk c) :
    (tryAddrs ifa family addrs sk).Logs DialLog.note
      (fun sk _ l => Called ifa addr ifas calls sk l) cs ⟨ifas, c :: calls⟩ := by
  induction addrs generalizing sk cs c with
  | nil => exact h.called
  | cons ptr rest ih =>
      rw [tryAddrs, Act.logs_ite]
      split
      · exact ih h
      rw [Act.logs_bind]
      intro (fd : Int)
      by_cases hneg : fd < 0
      · -- no socket
        show (if fd < 0 then _ else _ : Dial Int).Logs DialLog.note _ cs
          (if fd < 0 then _ else _)
        rw [if_pos hneg, if_pos hneg]
        refine ih ⟨h.at_, nofun, iff_of_false (Int.not_le.mpr hneg) nofun⟩
      show (if fd < 0 then _ else _ : Dial Int).Logs DialLog.note _ cs
        (if fd < 0 then _ else _)
      rw [if_neg hneg, if_neg hneg, Act.logs_bind]
      intro (bound : Bool)
      have hat : SkCall.At ⟨c.addr, ifa.addr :: c.froms, c.tries⟩ ifa addr := by
        refine ⟨h.at_.1, fun a ha => ?_⟩
        cases List.mem_cons.mp ha with
        | inl he => exact he
        | inr hm => exact h.at_.2 a hm
      cases bound with
      | false =>
          show (_ >>= _ : Dial Int).Logs DialLog.note _ cs _
          rw [Act.logs_bind]
          intro _
          refine ih ⟨hat, nofun, iff_of_true (Int.not_lt.mp hneg) rfl⟩
      | true =>
          show (_ >>= _ : Dial Int).Logs DialLog.note _ cs _
          rw [Act.logs_bind]
          refine logs_vcConfigSock fun _ => ?_
          rw [Act.logs_bind]
          intro (ret : ConnRet)
          cases ret with
          | zero => exact ⟨_, rfl, hat, iff_of_true (Int.not_lt.mp hneg) (.inl rfl)⟩
          | inProgress => exact ih ⟨hat, nofun, iff_of_false (by decide) nofun⟩
          | error =>
              show (_ >>= _ : Dial Int).Logs DialLog.note _ cs _
              rw [Act.logs_bind]
              intro _
              exact ih ⟨hat, nofun, iff_of_false (by decide) nofun⟩

/-- **One call**: it is about the address it was given, on its interface, and returns a
number exactly if its last attempt connected or failed in `bind`. -/
theorem logs_createSklist (addr port : String) (ifa : Ifaddr) :
    (createSklist addr port ifa).Logs DialLog.note
      (fun sk _ l => Called ifa addr ifas calls sk l) cs ⟨ifas, calls⟩ := by
  have hbegin : Calling ifa addr (-1) ⟨addr, [], []⟩ :=
    ⟨⟨rfl, nofun⟩, nofun, iff_of_false (by decide) nofun⟩
  rw [createSklist, Act.logs_bind]
  intro (result : Option (List AddrInfo))
  cases result with
  | none => exact hbegin.called
  | some addrs => exact logs_tryAddrs ifa addr _ addrs hbegin

end

/-! ## Visits as they are made -/

/-- The call returned a number. -/
def SkCall.Ended (c : SkCall) : Prop := c.Direct ∨ c.Stale

/-- The call the visit ends with. -/
def Visit.last (v : Visit) : SkCall := v.redundant.getD v.primary

/-- A visit that begins with the address `addr`. -/
structure Visit.Made (addr : String) (ipRed : Option String) (v : Visit) : Prop where
  primary : v.primary.At v.ifa addr
  redundant : match v.redundant with
    | none => ipRed = none ∨ v.primary.Ended
    | some c => ¬ v.primary.Ended ∧ ∃ red, ipRed = some red ∧ c.At v.ifa red

/-- The visits of the loop that begins with `addr`: after the first it begins with the
redundant address, if there is one. -/
inductive Dialed (ipRed : Option String) : String → List Ifaddr → List Visit → Prop
  | nil {addr : String} : Dialed ipRed addr [] []
  | last {addr : String} {v : Visit} {ifas : List Ifaddr} :
      v.Made addr ipRed → v.last.Ended → Dialed ipRed addr (v.ifa :: ifas) [v]
  | more {addr : String} {v : Visit} {ifas : List Ifaddr} {vs : List Visit} :
      v.Made addr ipRed → ¬ v.last.Ended → Dialed ipRed (ipRed.getD addr) ifas vs →
      Dialed ipRed addr (v.ifa :: ifas) (v :: vs)

section
variable {ipRed : Option String} {service addr : String} {ifas : List Ifaddr}
  {calls : List SkCall} {cs : List Int}

/-- **One interface.** -/
theorem logs_tryIfaddr (ifa : Ifaddr) :
    (tryIfaddr ipRed service ifa addr).Logs DialLog.note
      (fun r _ l => ∃ v : Visit, l = ⟨ifas, v.calls.reverse ++ calls⟩ ∧ v.ifa = ifa ∧
        v.Made addr ipRed ∧ (0 ≤ r.2 ↔ v.last.Ended) ∧ (r.2 < 0 → r.1 = ipRed.getD addr))
      cs ⟨ifas, calls⟩ := by
  rw [tryIfaddr, Act.logs_bind]
  refine (logs_createSklist addr service ifa).mono ?_
  rintro sk cs _ ⟨c, rfl, hat, hended⟩
  rw [Act.logs_ite]
  split
  · rename_i hneg
    have hnot : ¬ c.Ended := fun h => absurd (hended.mpr h) (Int.not_le.mpr hneg)
    cases ipRed with
    | none => exact ⟨⟨ifa, c, none⟩, rfl, rfl, ⟨hat, .inl rfl⟩, hended, fun _ => rfl⟩
    | some red =>
        show (_ >>= _ : Dial (String × Int)).Logs DialLog.note _ cs _
        rw [Act.logs_bind]
        refine (logs_createSklist red service ifa).mono ?_
        rintro sk' cs' _ ⟨c', rfl, hat', hended'⟩
        exact ⟨⟨ifa, c, some c'⟩, rfl, rfl, ⟨hat, hnot, red, rfl, hat'⟩, hended', fun _ => rfl⟩
  · rename_i hpos
    have hnonneg := Int.not_lt.mp hpos
    exact ⟨⟨ifa, c, none⟩, rfl, rfl, ⟨hat, .inr (hended.mp hnonneg)⟩, hended,
      fun hneg => absurd hneg hpos⟩

/-- **The loop over the interfaces.** -/
theorem logs_tryIfaddrs (ifs : List Ifaddr) {sk : Int} :
    (tryIfaddrs ipRed service ifs addr sk).Logs DialLog.note
      (fun _ _ l => ∃ vs, Dialed ipRed addr ifs vs ∧
        l = ⟨ifas, (vs.flatMap Visit.calls).reverse ++ calls⟩) cs ⟨ifas, calls⟩ := by
  induction ifs generalizing addr sk cs calls with
  | nil => exact ⟨[], .nil, rfl⟩
  | cons ifa rest ih =>
      rw [tryIfaddrs, Act.logs_bind]
      refine (logs_tryIfaddr ifa).mono ?_
      rintro ⟨addr', sk'⟩ cs _ ⟨v, rfl, rfl, hmade, hended, haddr⟩
      show (if sk' ≥ 0 then (pure sk' : Dial Int)
        else tryIfaddrs ipRed service rest addr' sk').Logs DialLog.note _ cs _
      rw [Act.logs_ite]
      split
      · rename_i hpos
        exact ⟨[v], .last hmade (hended.mp hpos), by simp⟩
      · rename_i hneg
        rw [show addr' = ipRed.getD addr from haddr (Int.not_le.mp hneg)]
        refine ih.mono ?_
        rintro _ _ _ ⟨vs, hvs, rfl⟩
        exact ⟨v :: vs, .more hmade (fun h => hneg (hended.mpr h)) hvs, by simp⟩

end

/-! ## The rest of the call leaves nothing in the log -/

section
variable {l : DialLog} {cs : List Int}

theorem logs_pickClient (ready todo : List Int) (sk : Int) :
    (pickClient ready todo sk).Logs DialLog.note (fun _ _ l' => l' = l) cs l := by
  induction todo generalizing cs with
  | nil => rfl
  | cons c todo ih =>
      rw [pickClient, Act.logs_ite]
      split
      · exact ih
      rw [Act.logs_bind, sockErr, Act.logs_bind]
      intro (arg : Option Int)
      have hgo : ∀ err : Bool, (if err = true then do
            sys (.close c)
            Act.modify (List.erase · c)
            pickClient ready todo sk
          else do
            Act.modify (List.erase · c)
            pure c : Dial Int).Logs DialLog.note (fun _ _ l' => l' = l) cs l := by
        intro err
        cases err with
        | true => exact fun _ => ih
        | false => rfl
      cases arg with
      | none => exact hgo true
      | some arg => exact hgo (arg != 0)

theorem logs_waitClients (fuel : Nat) (sk : Int) :
    (waitClients fuel sk).Logs DialLog.note (fun _ _ l' => l' = l) cs l := by
  induction fuel generalizing sk cs with
  | zero => trivial
  | succ fuel ih =>
      rw [waitClients, Act.logs_ite]
      split
      · rfl
      rw [Act.logs_bind, Act.logs_get, Act.logs_bind]
      intro (ready : Option (List Int))
      cases ready with
      | none => rfl
      | some ready =>
          show (_ >>= _ : Dial Int).Logs DialLog.note _ cs l
          rw [Act.logs_bind]
          refine (logs_pickClient ready cs sk).mono ?_
          rintro sk' cs' _ rfl
          exact ih sk'

theorem logs_closeClients (todo : List Int) :
    (closeClients todo).Logs DialLog.note (fun _ _ l' => l' = l) cs l := by
  induction todo generalizing cs with
  | nil => rfl
  | cons c todo ih => exact fun _ => ih

theorem logs_awaitConnected (sk : Int) :
    (awaitConnected sk).Logs DialLog.note (fun _ _ l' => l' = l) cs l := by
  rw [awaitConnected, Act.logs_bind, Act.logs_get, Act.logs_ite]
  split
  · rfl
  rw [Act.logs_bind]
  refine (logs_waitClients _ sk).mono ?_
  rintro sk' cs' _ rfl
  rw [Act.logs_bind, Act.logs_get, Act.logs_bind]
  refine (logs_closeClients cs').mono ?_
  rintro _ cs'' _ rfl
  rw [configConnected, Act.logs_ite]
  split
  · rw [Act.logs_bind]
    exact logs_vcConfigSock fun _ _ => rfl
  · rfl

/-- **The calls of `vc_connect`.** -/
theorem logs_vcConnect (ip : String) (ipRed : Option String) (sk : Int) (ifs : List Ifaddr) :
    (vcConnect ip ipRed sk).Logs DialLog.note
      (fun _ _ l => ∃ vs, Dialed ipRed ip l.ifaddr vs ∧
        l.calls = (vs.flatMap Visit.calls).reverse) cs ⟨ifs, []⟩ := by
  rw [vcConnect, Act.logs_bind]
  intro (r : Option (List Ifaddr))
  cases r with
  | none => exact ⟨[], .nil, rfl⟩
  | some ifaddr =>
      show (_ >>= _ : Dial Int).Logs DialLog.note _ cs ⟨ifaddr, []⟩
      rw [Act.logs_bind]
      refine (logs_tryIfaddrs ifaddr).mono ?_
      rintro sk' cs' _ ⟨vs, hvs, rfl⟩
      refine (logs_awaitConnected sk').mono ?_
      rintro _ _ _ rfl
      exact ⟨vs, hvs, List.append_nil _⟩

end

/-! ## When the primary address keeps its place -/

section
variable {ip red : String} {ifa : Ifaddr} {ifas : List Ifaddr} {c c' : SkCall}
  {rest : List SkCall}

theorem PrimaryKept.nil {ipRed : Option String} : PrimaryKept ip ipRed ifas [] :=
  ⟨[], List.nil_prefix, rfl, nofun⟩

/-- The visits, if there is a call: the first of them is to the first interface. -/
theorem PrimaryKept.cases {ipRed : Option String}
    (h : PrimaryKept ip ipRed (ifa :: ifas) (c :: rest)) :
    ∃ red' rest', rest = red'.toList ++ rest' ∧ (⟨ifa, c, red'⟩ : Visit).Fair ip ipRed ∧
      PrimaryKept ip ipRed ifas rest' := by
  obtain ⟨visits, hpre, hcalls, hfair⟩ := h
  cases visits with
  | nil => exact nomatch hcalls
  | cons v visits =>
      obtain ⟨hifa, hpre⟩ := List.cons_prefix_cons.mp hpre
      rw [List.flatMap_cons, Visit.calls, List.cons_append, List.cons.injEq] at hcalls
      obtain ⟨rfl, rfl⟩ := hcalls
      have hv := hfair v (List.mem_cons_self ..)
      refine ⟨v.redundant, visits.flatMap Visit.calls, rfl, ?_,
        visits, hpre, rfl, fun w hw => hfair w (List.mem_cons_of_mem _ hw)⟩
      rw [← show v.ifa = ifa from hifa]
      exact hv

theorem PrimaryKept.cons {ipRed : Option String} {v : Visit} (hv : v.Fair ip ipRed)
    (h : PrimaryKept ip ipRed ifas rest) :
    PrimaryKept ip ipRed (v.ifa :: ifas) (v.calls ++ rest) := by
  obtain ⟨visits, hpre, rfl, hfair⟩ := h
  refine ⟨v :: visits, (List.prefix_cons_inj v.ifa).mpr hpre, rfl, fun w hw => ?_⟩
  cases List.mem_cons.mp hw with
  | inl he => rw [he]; exact hv
  | inr hm => exact hfair w hm

/-- A first call that did not connect has to be followed by one for the redundant
address. -/
theorem primaryKept_two_iff (hnot : ¬ c.Direct) :
    PrimaryKept ip (some red) (ifa :: ifas) (c :: c' :: rest) ↔
      c.At ifa ip ∧ c'.At ifa red ∧ PrimaryKept ip (some red) ifas rest := by
  constructor
  · intro h
    obtain ⟨red', rest', hrest, ⟨hat, hred⟩, hkept⟩ := h.cases
    cases red' with
    | none => exact absurd hred (not_or.mpr ⟨nofun, hnot⟩)
    | some d =>
        obtain ⟨-, _, ⟨⟩, hd⟩ := hred
        rw [Option.toList_some, List.singleton_append, List.cons.injEq] at hrest
        obtain ⟨rfl, rfl⟩ := hrest
        exact ⟨hat, hd, hkept⟩
  · rintro ⟨hat, hat', hkept⟩
    exact PrimaryKept.cons (v := ⟨ifa, c, some c'⟩) ⟨hat, hnot, red, rfl, hat'⟩ hkept

/-- A call with none behind it has to connect. -/
theorem primaryKept_one_iff :
    PrimaryKept ip (some red) (ifa :: ifas) [c] ↔ c.At ifa ip ∧ c.Direct := by
  constructor
  · intro h
    obtain ⟨red', rest', hrest, ⟨hat, hred⟩, -⟩ := h.cases
    cases red' with
    | none => exact ⟨hat, hred.resolve_left nofun⟩
    | some d => exact nomatch hrest
  · rintro ⟨hat, hdirect⟩
    exact PrimaryKept.cons (v := ⟨ifa, c, none⟩) ⟨hat, .inr hdirect⟩ PrimaryKept.nil

theorem SkCall.At.addr_iff {addr : String} (h : c.At ifa addr) : c.At ifa ip ↔ addr = ip :=
  ⟨fun hip => h.1.symm.trans hip.1, fun he => he ▸ h⟩

end

section
variable {ip red addr : String} {ifas : List Ifaddr} {vs : List Visit}

/-- A visit is one call that ended it, or two calls of which the first did not. -/
theorem Visit.Made.cases {v : Visit} (h : v.Made addr (some red)) :
    (v.redundant = none ∧ v.calls = [v.primary] ∧ v.primary.Ended) ∨
      ∃ c, v.redundant = some c ∧ v.calls = [v.primary, c] ∧ ¬ v.primary.Ended ∧
        c.At v.ifa red := by
  have hred := h.redundant
  cases hc : v.redundant with
  | none =>
      rw [hc] at hred
      exact .inl ⟨rfl, by rw [Visit.calls, hc]; rfl, hred.resolve_left nofun⟩
  | some c =>
      rw [hc] at hred
      obtain ⟨hnot, _, ⟨⟩, hat⟩ := hred
      exact .inr ⟨c, rfl, by rw [Visit.calls, hc]; rfl, hnot, hat⟩

/-- The first call of every visit of one call connected. -/
def Unfailing (vs : List Visit) : Prop := ∀ v ∈ vs, v.redundant = none → v.primary.Direct

theorem unfailing_cons_some {v : Visit} {c : SkCall} (hc : v.redundant = some c) :
    Unfailing (v :: vs) ↔ Unfailing vs := by
  refine ⟨fun h w hw => h w (List.mem_cons_of_mem _ hw), fun h w hw hnone => ?_⟩
  cases List.mem_cons.mp hw with
  | inl he =>
      rw [he, hc] at hnone
      exact nomatch hnone
  | inr hm => exact h w hm hnone

/-- **With a redundant address**: the loop has to begin with the primary address, end
with the first visit unless the two are the same, and not be ended by a failed
`bind`. -/
theorem Dialed.kept_iff (h : Dialed (some red) addr ifas vs) :
    PrimaryKept ip (some red) ifas (vs.flatMap Visit.calls) ↔
      (vs ≠ [] → addr = ip) ∧ (2 ≤ vs.length → red = ip) ∧ Unfailing vs := by
  induction h with
  | nil => exact iff_of_true .nil ⟨nofun, nofun, nofun⟩
  | @last addr v ifas hmade hended =>
      rw [List.flatMap_singleton]
      obtain ⟨hnone, hcalls, -⟩ | ⟨c, hsome, hcalls, hnot, hat⟩ := hmade.cases
      · rw [hcalls, primaryKept_one_iff, hmade.primary.addr_iff]
        constructor
        · rintro ⟨haddr, hdirect⟩
          refine ⟨fun _ => haddr, fun hlen => absurd hlen (by simp), fun w hw _ => ?_⟩
          rw [List.mem_singleton.mp hw]
          exact hdirect
        · rintro ⟨haddr, -, hall⟩
          exact ⟨haddr nofun, hall v (List.mem_singleton.mpr rfl) hnone⟩
      · rw [hcalls, primaryKept_two_iff (fun hd => hnot (.inl hd)), hmade.primary.addr_iff,
          unfailing_cons_some hsome]
        constructor
        · rintro ⟨haddr, -, -⟩
          exact ⟨fun _ => haddr, fun hlen => absurd hlen (by simp), nofun⟩
        · rintro ⟨haddr, -, -⟩
          exact ⟨haddr nofun, hat, .nil⟩
  | @more addr v ifas vs hmade hnot _ ih =>
      rw [List.flatMap_cons]
      obtain ⟨hnone, -, hended⟩ | ⟨c, hsome, hcalls, hfirst, hat⟩ := hmade.cases
      · rw [Visit.last, hnone] at hnot
        exact absurd hended hnot
      rw [hcalls, List.cons_append, List.cons_append, List.nil_append,
        primaryKept_two_iff (fun hd => hfirst (.inl hd)), hmade.primary.addr_iff, ih,
        unfailing_cons_some hsome, Option.getD_some, List.length_cons]
      constructor
      · rintro ⟨haddr, -, hred, -, hall⟩
        refine ⟨fun _ => haddr, fun hlen => hred ?_, hall⟩
        rintro rfl
        exact absurd hlen (by simp)
      · rintro ⟨haddr, hred, hall⟩
        have hlong : vs ≠ [] → red = ip := fun hne =>
          hred (Nat.succ_le_succ (List.length_pos_iff.mpr hne))
        refine ⟨haddr nofun, hat, hlong, fun hlen => hlong ?_, hall⟩
        rintro rfl
        exact absurd hlen (by simp)

/-- **Without one** only the primary address is tried. -/
theorem Dialed.kept_none (h : Dialed none ip ifas vs) :
    PrimaryKept ip none ifas (vs.flatMap Visit.calls) := by
  have hfair : ∀ {v : Visit}, v.Made ip none → v.Fair ip none := by
    intro v hmade
    have hred := hmade.redundant
    refine ⟨hmade.primary, ?_⟩
    cases hc : v.redundant with
    | none => exact .inl rfl
    | some c =>
        rw [hc] at hred
        obtain ⟨-, _, ⟨⟩, -⟩ := hred
  generalize hr : (none : Option String) = ipRed at h
  induction h with
  | nil => exact .nil
  | last hmade _ =>
      subst hr
      exact PrimaryKept.cons (hfair hmade) .nil
  | more hmade _ _ ih =>
      subst hr
      rw [List.flatMap_cons]
      exact PrimaryKept.cons (hfair hmade) (ih hfair)

/-- A visit that is not the last has two calls. -/
theorem Visit.Made.two_of_not_last {v : Visit} (h : v.Made addr (some red))
    (hnot : ¬ v.last.Ended) :
    ∃ c, v.redundant = some c ∧ v.calls = [v.primary, c] ∧ ¬ v.primary.Ended ∧ ¬ c.Ended := by
  obtain ⟨hnone, -, hended⟩ | ⟨c, hsome, hcalls, hfirst, -⟩ := h.cases
  · rw [Visit.last, hnone] at hnot
    exact absurd hended hnot
  · rw [Visit.last, hsome] at hnot
    exact ⟨c, hsome, hcalls, hfirst, hnot⟩

theorem Dialed.oneVisit_iff (h : Dialed (some red) addr ifas vs) :
    OneVisit ifas (vs.flatMap Visit.calls) ↔ vs.length ≤ 1 := by
  cases h with
  | nil => exact iff_of_true (.inl (by simp)) (by simp)
  | @last _ v ifas hmade hended =>
      refine iff_of_true (.inr ?_) (by simp)
      rw [List.flatMap_singleton]
      obtain ⟨-, hcalls, hone⟩ | ⟨c, hsome, hcalls, -, -⟩ := hmade.cases
      · exact ⟨v.primary, by rw [hcalls]; simp, hone⟩
      · refine ⟨c, by rw [hcalls]; simp, ?_⟩
        rw [Visit.last, hsome] at hended
        exact hended
  | @more _ v ifas vs hmade hnot htail =>
      obtain ⟨c, -, hcalls, hfirst, hsecond⟩ := hmade.two_of_not_last hnot
      have hopen : ¬ ∃ d ∈ ((v :: vs).flatMap Visit.calls).take 2, d.Direct ∨ d.Stale := by
        rw [List.flatMap_cons, hcalls]
        rintro ⟨d, hd, hended⟩
        simp only [List.cons_append, List.nil_append, List.take_succ_cons, List.take_zero,
          List.mem_cons, List.not_mem_nil, or_false] at hd
        rcases hd with rfl | rfl
        · exact hfirst hended
        · exact hsecond hended
      rw [OneVisit, or_iff_left hopen]
      -- the loop went on to the next interface, if there is one
      cases htail with
      | nil => simp
      | last => simp
      | more => simp

/-- The last call is the only one of its visit exactly if the number of calls is odd. -/
theorem Dialed.unfailing_iff (h : Dialed (some red) addr ifas vs) :
    Unfailing vs ↔ ∀ c, (vs.flatMap Visit.calls).getLast? = some c → c.Stale →
      (vs.flatMap Visit.calls).length % 2 = 0 := by
  induction h with
  | nil => exact iff_of_true nofun nofun
  | @last addr v ifas hmade hended =>
      rw [List.flatMap_singleton]
      obtain ⟨hnone, hcalls, hone⟩ | ⟨c, hsome, hcalls, -, -⟩ := hmade.cases
      · rw [hcalls]
        constructor
        · intro hall c hc hstale
          cases hc
          have hdirect := hall v (List.mem_singleton.mpr rfl) hnone
          exact nomatch Option.some.inj (hdirect.symm.trans hstale)
        · intro hlast w hw _
          rw [List.mem_singleton.mp hw]
          refine hone.resolve_right fun hstale => ?_
          exact absurd (hlast v.primary rfl hstale) (by simp)
      · rw [hcalls, unfailing_cons_some hsome]
        exact iff_of_true nofun fun _ _ _ => by simp
  | @more addr v ifas vs hmade hnot _ ih =>
      obtain ⟨c, hsome, hcalls, -, hsecond⟩ := hmade.two_of_not_last hnot
      rw [unfailing_cons_some hsome, ih, List.flatMap_cons, hcalls]
      cases hrest : vs.flatMap Visit.calls with
      | nil => exact iff_of_true nofun fun _ _ _ => by simp
      | cons d rest =>
          have hlen : ([v.primary, c] ++ d :: rest).length % 2 = (d :: rest).length % 2 := by
            simp only [List.length_append, List.length_cons, List.length_nil]
            omega
          rw [hlen, List.cons_append, List.singleton_append, List.getLast?_cons_cons,
            List.getLast?_cons_cons]

end

/-- **The primary address keeps its place** exactly if there is no redundant address, or
it is the same or is not carried over, and no `bind` failure is taken for a connection:
whatever the interfaces and whatever becomes of the attempts. -/
theorem primary_kept_iff (ip : String) (ipRed : Option String) (sk : Int) :
    (vcConnect ip ipRed sk).Logs DialLog.note
      (fun _ _ l => PrimaryKept ip ipRed l.ifaddr l.calls.reverse ↔ Undisplaced ip ipRed l)
      [] ⟨[], []⟩ := by
  refine (logs_vcConnect ip ipRed sk []).mono ?_
  rintro _ _ ⟨ifaddr, calls⟩ ⟨vs, hvs, hcalls⟩
  have hcalls : calls = (vs.flatMap Visit.calls).reverse := hcalls
  have hvs : Dialed ipRed ip ifaddr vs := hvs
  subst hcalls
  cases ipRed with
  | none =>
      refine iff_of_true ?_ (.inl rfl)
      rw [List.reverse_reverse]
      exact hvs.kept_none
  | some red =>
      have hsame : some red = some ip ↔ red = ip := Option.some_inj
      simp only [Undisplaced, List.reverse_reverse, List.head?_reverse, List.length_reverse,
        reduceCtorEq, false_or, hvs.kept_iff, hvs.oneVisit_iff, ← hvs.unfailing_iff, hsame]
      constructor
      · rintro ⟨-, hred, hall⟩
        refine ⟨?_, hall⟩
        by_cases hlen : vs.length ≤ 1
        · exact .inr hlen
        · exact .inl (hred (Nat.lt_of_not_le hlen))
      · rintro ⟨hone, hall⟩
        exact ⟨fun _ => trivial, fun hlen => hone.resolve_right (Nat.not_le.mpr hlen), hall⟩

/-! ## Two interfaces -/

def loopback : Ifaddr := ⟨some ⟨AF_INET, "127.0.0.1"⟩⟩

def lan : Ifaddr := ⟨some ⟨AF_INET, "10.0.0.2"⟩⟩

/-- Each name has one address; every connection stays under way and none comes up. -/
def slowReply : (e : SockReq) → Option e.Rep
  | .getifaddrs => some (some [loopback, lan])
  | .getaddrinfo addr _ => some (some [⟨AF_INET, 1, 0, ⟨AF_INET, addr⟩⟩])
  | .socket _ _ _ => some (5 : Int)
  | .bind _ _ _ => some true
  | .getfl _ => some (some false)
  | .setfl _ _ => some true
  | .connect _ _ => some ConnRet.inProgress
  | .select _ => some none
  | .sockError _ => some (some (0 : Int))
  | .close _ => some ()
  | .nodelay _ => some ()

/-- The call on `ifa` that leaves its one connection waiting. -/
def slowCall (ifa : Ifaddr) (addr : String) : SkCall := ⟨addr, [ifa.addr], [.waiting]⟩

/-- What the run leaves: the primary address on the first interface, and the redundant
one three times. -/
def slowLog : DialLog :=
  ⟨[loopback, lan], [slowCall lan "10.0.0.9", slowCall lan "10.0.0.9",
    slowCall loopback "10.0.0.9", slowCall loopback "10.0.0.1"]⟩

/-- **The primary address is tried on the first interface only.** -/
theorem primary_displaced :
    (((vcConnect "10.0.0.1" (some "10.0.0.9") (-1)) []).exec
      (logged DialLog.note slowReply) ⟨[], []⟩ = some (-1, [], slowLog)) ∧
    ¬ (vcConnect "10.0.0.1" (some "10.0.0.9") (-1)).Logs DialLog.note
      (fun _ _ l => PrimaryKept "10.0.0.1" (some "10.0.0.9") l.ifaddr l.calls.reverse)
      [] ⟨[], []⟩ := by
  have hrun : ((vcConnect "10.0.0.1" (some "10.0.0.9") (-1)) []).exec
      (logged DialLog.note slowReply) ⟨[], []⟩ = some (-1, [], slowLog) := rfl
  refine ⟨hrun, fun h => ?_⟩
  have hkept := Proc.Logs.exec h hrun
  obtain ⟨-, -, hrest⟩ := (primaryKept_two_iff (by decide)).mp hkept
  obtain ⟨hat, -, -⟩ := (primaryKept_two_iff (by decide)).mp hrest
  exact absurd hat.1 (by decide)

end AdvVcom
