/-
# `AdvVcom.Daemon.Race` — the wait loop of `vc_connect` on its linked list

`AdvVcom.Daemon.Connect` has the wait list of `vc_connect` as a list of descriptors.  Here
it is what the code has: records on the heap, linked into a ring with a head on the stack
(`advlist.h`), walked with `list_for_each` and `list_for_each_safe`, with records deleted
during the walk and a walk that is left in the middle.

The loop on the ring runs in lockstep with the loop on the list.  What the latter does is
shown against a log of its system calls, in which `select` and `getsockopt` answer what
they like, except that `select` does not report success without a socket that is ready.

**Proved here.**

    the walks on the ring do what the walks on the list do     (`pickNode_sim`, `sweep_sim`)
    so does the whole wait                                     (`vcRace_sim`)
    it ends, keeps the ring, and closes what it does not choose (`race_settles`)
-/
import AdvVcom.Daemon.Connect
import AdvVcom.Lib.Dlist
import AdvVcom.Lib.Lockstep

namespace AdvVcom.Race

open Lib Lib.Dlist

/-! ## The code -/

/-- Code that works on the heap.  It dies when it touches an address where nothing stands, or
when a loop does not end. -/
abbrev OnHeap (α : Type) := Act SockSig (Heap Int) α

def ask (e : SockReq) : OnHeap e.Rep := Act.request (S := SockSig) e

def deref {α : Type} (o : Heap Int → Option α) : OnHeap α := fun h =>
  match o h with
  | some a => .done a h
  | none => .fault ()

def change (o : Heap Int → Option (Heap Int)) : OnHeap Unit := fun h =>
  match o h with
  | some h' => .done () h'
  | none => .fault ()

/-- `pos->next` -/
def nextOf (pos : Nat) : OnHeap Nat := deref fun h => (h pos).map Node.next

/-- `container_of(pos, _client_info, list)->sk` -/
def skOf (pos : Nat) : OnHeap Int := deref fun h => (h pos).bind Node.val

/-- `_sock_err` -/
def sockErrOf (sk : Int) : OnHeap Bool := do
  match ← ask (.sockError sk) with
  | none => pure true
  | some arg => pure (arg != 0)

/-- `list_del` and `free` -/
def dropNode (pos : Nat) : OnHeap Unit := do
  change (listDel · pos)
  Act.modify (free · pos)

/-- `list_for_each`: the descriptors for `select`, and the greatest of them. -/
def fdSets (head : Nat) : Nat → Nat → List Int → Int → OnHeap (List Int × Int)
  | 0, _, _, _ => Act.die ()
  | fuel + 1, pos, rfds, skmax =>
      if pos = head then pure (rfds, skmax)
      else do
        let sk ← skOf pos
        let next ← nextOf pos
        fdSets head fuel next (rfds ++ [sk]) (if sk > skmax then sk else skmax)

/-- The inner loop of the wait, by `list_for_each_safe`. -/
def pickNode (head : Nat) (ready : List Int) : Nat → Nat → Nat → Int → OnHeap Int
  | 0, _, _, _ => Act.die ()
  | fuel + 1, pos, n, sk =>
      if pos = head then pure sk
      else do
        let cli ← skOf pos
        if cli ∉ ready then do
          let n' ← nextOf n
          pickNode head ready fuel n n' sk
        else do
          if ← sockErrOf cli then
            ask (.close cli)
            dropNode pos
            let n' ← nextOf n
            pickNode head ready fuel n n' sk
          else do
            dropNode pos
            pure cli

/-- The `do … while (1)` loop.  `select` looks at the descriptors up to `skmax` only. -/
def raceLoop (head walk : Nat) : Nat → Int → OnHeap Int
  | 0, _ => Act.die ()
  | fuel + 1, sk =>
      if sk ≥ 0 then pure sk
      else do
        let first ← nextOf head
        let (rfds, skmax) ← fdSets head walk first [] (-1)
        match ← ask (.select (rfds.filter (· < skmax + 1))) with
        | none => pure sk
        | some ready => do
            let pos ← nextOf head
            let n ← nextOf pos
            let sk ← pickNode head ready walk pos n sk
            raceLoop head walk fuel sk

/-- The sweep behind it. -/
def sweep (head : Nat) : Nat → Nat → Nat → OnHeap Unit
  | 0, _, _ => Act.die ()
  | fuel + 1, pos, n =>
      if pos = head then pure ()
      else do
        let cli ← skOf pos
        ask (.close cli)
        dropNode pos
        let n' ← nextOf n
        sweep head fuel n n'

/-- `vc_connect` from the wait loop to the end of the sweep.  Each walk may take `walk` steps,
and the loop `fuel` rounds. -/
def vcRace (head walk fuel : Nat) (sk : Int) : OnHeap Int := do
  let sk ← raceLoop head walk fuel sk
  let pos ← nextOf head
  let n ← nextOf pos
  sweep head walk pos n
  pure sk

/-- The same on the list of descriptors. -/
def settle (fuel : Nat) (sk : Int) : Dial Int := do
  let sk ← waitClients fuel sk
  closeClients (← Act.get)
  pure sk

/-! ## In lockstep -/

/-- The heap holds the list as a ring that can be walked in `walk` steps. -/
def Rings (head walk : Nat) (h : Heap Int) (clients : List Int) : Prop :=
  ∃ xs, Ring h head xs ∧ xs.map Prod.snd = clients ∧ clients.Nodup ∧ xs.length < walk

section
variable {h : Heap Int} {head walk : Nat} {xs ys zs : List (Nat × Int)}

theorem deref_bind {α β : Type} {o : Heap Int → Option α} {a : α} (ho : o h = some a)
    (f : α → OnHeap β) : (deref o >>= f) h = f a h := by
  rw [Act.bind_apply, deref, ho]
  rfl

theorem dropNode_bind {α : Type} {h' : Heap Int} {pos : Nat} (hdel : listDel h pos = some h')
    (f : Unit → OnHeap α) : (dropNode pos >>= f) h = f () (free h' pos) := by
  have hchange : change (listDel · pos) h = .done () h' := by
    rw [change, hdel]
  rw [Act.bind_apply, dropNode, Act.bind_apply, hchange]
  rfl

/-- Where a safe walk stands, it can look at what comes next. -/
theorem next_front (hr : Ring h head (ys ++ zs)) :
    ∃ m, h (front head zs) = some m ∧ (zs ≠ [] → m.next = front head zs.tail) := by
  cases zs with
  | nil =>
      rw [List.append_nil] at hr
      obtain ⟨n, hn, -⟩ := hr.first
      exact ⟨n, hn, fun hne => absurd rfl hne⟩
  | cons z zs =>
      obtain ⟨n, hn, hnext, -⟩ := hr.node
      exact ⟨n, hn, fun _ => hnext⟩

theorem Ring.ne_head {a : Nat} {v : Int} (hr : Ring h head (ys ++ (a, v) :: zs)) : a ≠ head :=
  fun heq => hr.apart.2.2.1 (heq ▸ List.mem_cons_self)

theorem nextOf_bind {α : Type} {pos : Nat} {n : Node Int} (hpos : h pos = some n)
    (f : Nat → OnHeap α) : (nextOf pos >>= f) h = f n.next h :=
  deref_bind (by rw [hpos]; rfl) f

theorem skOf_bind {α : Type} {a : Nat} {v : Int} (hr : Ring h head (ys ++ (a, v) :: zs))
    (f : Int → OnHeap α) : (skOf a >>= f) h = f v h := by
  obtain ⟨n, hn, -, hval⟩ := hr.node
  exact deref_bind (by rw [hn, Option.bind_some, hval]) f

/-- The variables are those they were. -/
theorem ask_sim {clients : List Int} (hR : Rings head walk h clients) (e : SockReq) :
    Sim (Rings head walk) (fun _ s t => s = h ∧ t = clients) (ask e h) (sys e clients) :=
  .pause hR fun _ => .done ⟨rfl, rfl⟩

theorem sockErrOf_sim {clients : List Int} (hR : Rings head walk h clients) (sk : Int) :
    Sim (Rings head walk) (fun _ s t => s = h ∧ t = clients) (sockErrOf sk h)
      (sockErr sk clients) := by
  refine .pause hR fun r => ?_
  cases r with
  | none => exact .done ⟨rfl, rfl⟩
  | some arg => exact .done ⟨rfl, rfl⟩

/-- Without its descriptor the list is what the ring is without the node. -/
theorem erase_middle {a : Nat} {v : Int} (hnodup : ((ys ++ (a, v) :: zs).map Prod.snd).Nodup) :
    ((ys ++ (a, v) :: zs).map Prod.snd).erase v = (ys ++ zs).map Prod.snd := by
  rw [List.map_append, List.map_cons] at hnodup ⊢
  have hys : v ∉ ys.map Prod.snd :=
    fun hmem => (List.nodup_append.mp hnodup).2.2 v hmem v List.mem_cons_self rfl
  rw [List.erase_append_right _ hys, List.erase_cons_head, List.map_append]

theorem nodup_middle {a : Nat} {v : Int} (hnodup : ((ys ++ (a, v) :: zs).map Prod.snd).Nodup) :
    ((ys ++ zs).map Prod.snd).Nodup := by
  rw [← erase_middle hnodup]
  exact hnodup.erase v

theorem pickNode_sim {ready : List Int} {fuel n : Nat} {sk : Int} (hr : Ring h head (ys ++ zs))
    (hnodup : ((ys ++ zs).map Prod.snd).Nodup) (hwalk : (ys ++ zs).length < walk)
    (hfuel : zs.length < fuel) (hn : zs ≠ [] → n = front head zs.tail) :
    Sim (Rings head walk) (fun _ => Rings head walk)
      (pickNode head ready fuel (front head zs) n sk h)
      (pickClient ready (zs.map Prod.snd) sk ((ys ++ zs).map Prod.snd)) := by
  induction zs generalizing ys h fuel n with
  | nil =>
      obtain ⟨fuel, rfl⟩ := Nat.exists_eq_succ_of_ne_zero (Nat.ne_of_gt hfuel)
      rw [front_nil, pickNode, if_pos rfl]
      exact .done ⟨_, hr, rfl, hnodup, hwalk⟩
  | cons z zs ih =>
      obtain ⟨a, v⟩ := z
      obtain ⟨fuel, rfl⟩ := Nat.exists_eq_succ_of_ne_zero (Nat.ne_zero_of_lt hfuel)
      have hn : n = front head zs := hn (List.cons_ne_nil _ _)
      have hzs : zs.length < fuel := Nat.lt_of_succ_lt_succ hfuel
      have hrings : Rings head walk h ((ys ++ (a, v) :: zs).map Prod.snd) :=
        ⟨_, hr, rfl, hnodup, hwalk⟩
      subst hn
      rw [front_cons, pickNode, if_neg (Ring.ne_head hr), skOf_bind hr, List.map_cons, pickClient]
      by_cases hready : v ∈ ready
      · rw [if_neg (not_not_intro hready), if_neg (not_not_intro hready)]
        obtain ⟨h', hdel, hr'⟩ := hr.del
        have hwalk' : (ys ++ zs).length < walk := by
          rw [List.length_append, List.length_cons] at hwalk
          rw [List.length_append]
          omega
        refine (sockErrOf_sim hrings v).bind ?_
        rintro failed s t ⟨rfl, rfl⟩
        cases failed with
        | true =>
            refine (ask_sim hrings (.close v)).bind ?_
            rintro ⟨⟩ s t ⟨rfl, rfl⟩
            obtain ⟨m, hm, hnext⟩ := next_front hr'
            rw [dropNode_bind hdel, nextOf_bind hm]
            change Sim _ _ _ (pickClient ready _ sk (List.erase _ v))
            rw [erase_middle hnodup]
            exact ih hr' (nodup_middle hnodup) hwalk' hzs hnext
        | false =>
            rw [if_neg Bool.false_ne_true, if_neg Bool.false_ne_true, dropNode_bind hdel]
            exact .done ⟨_, hr', (erase_middle hnodup).symm, hnodup.erase v, hwalk'⟩
      · rw [if_pos hready, if_pos hready]
        rw [List.append_cons] at hr hnodup hwalk ⊢
        obtain ⟨m, hm, hnext⟩ := next_front hr
        rw [nextOf_bind hm]
        exact ih hr hnodup hwalk hzs hnext

theorem sweep_sim {fuel n : Nat} (hr : Ring h head zs) (hnodup : (zs.map Prod.snd).Nodup)
    (hwalk : zs.length < walk) (hfuel : zs.length < fuel) (hn : zs ≠ [] → n = front head zs.tail) :
    Sim (Rings head walk) (fun _ => Rings head walk) (sweep head fuel (front head zs) n h)
      (closeClients (zs.map Prod.snd) (zs.map Prod.snd)) := by
  induction zs generalizing h fuel n with
  | nil =>
      obtain ⟨fuel, rfl⟩ := Nat.exists_eq_succ_of_ne_zero (Nat.ne_of_gt hfuel)
      rw [front_nil, sweep, if_pos rfl]
      exact .done ⟨_, hr, rfl, hnodup, hwalk⟩
  | cons z zs ih =>
      obtain ⟨a, v⟩ := z
      obtain ⟨fuel, rfl⟩ := Nat.exists_eq_succ_of_ne_zero (Nat.ne_zero_of_lt hfuel)
      have hn : n = front head zs := hn (List.cons_ne_nil _ _)
      have hrings : Rings head walk h (((a, v) :: zs).map Prod.snd) := ⟨_, hr, rfl, hnodup, hwalk⟩
      have hr₀ : Ring h head ([] ++ (a, v) :: zs) := hr
      subst hn
      rw [front_cons, sweep, if_neg (Ring.ne_head hr₀), skOf_bind hr₀]
      refine (ask_sim hrings (.close v)).bind ?_
      rintro ⟨⟩ s t ⟨rfl, rfl⟩
      obtain ⟨h', hdel, hr'⟩ := hr₀.del
      obtain ⟨m, hm, hnext⟩ := next_front hr'
      rw [dropNode_bind hdel, nextOf_bind hm]
      change Sim _ _ _ (closeClients _ (List.erase _ v))
      rw [List.map_cons, List.erase_cons_head]
      exact ih hr' (List.nodup_cons.mp hnodup).2 (Nat.lt_of_succ_lt hwalk)
        (Nat.lt_of_succ_lt_succ hfuel) hnext

/-- The descriptors are those of the nodes, and none is above the greatest. -/
theorem fdSets_eq {fuel : Nat} {rfds : List Int} {skmax : Int} (hr : Ring h head (ys ++ zs))
    (hfuel : zs.length < fuel) (hmax : ∀ c ∈ rfds, c ≤ skmax) :
    ∃ skmax', fdSets head fuel (front head zs) rfds skmax h =
      .done (rfds ++ zs.map Prod.snd, skmax') h ∧ ∀ c ∈ rfds ++ zs.map Prod.snd, c ≤ skmax' := by
  induction zs generalizing ys fuel rfds skmax with
  | nil =>
      obtain ⟨fuel, rfl⟩ := Nat.exists_eq_succ_of_ne_zero (Nat.ne_of_gt hfuel)
      rw [front_nil, fdSets, if_pos rfl, List.map_nil, List.append_nil]
      exact ⟨skmax, rfl, hmax⟩
  | cons z zs ih =>
      obtain ⟨a, v⟩ := z
      obtain ⟨fuel, rfl⟩ := Nat.exists_eq_succ_of_ne_zero (Nat.ne_zero_of_lt hfuel)
      obtain ⟨m, hm, hnext, -⟩ := hr.node
      have hassoc : rfds ++ ((a, v) :: zs).map Prod.snd = (rfds ++ [v]) ++ zs.map Prod.snd :=
        List.append_cons _ _ _
      rw [front_cons, fdSets, if_neg (Ring.ne_head hr), skOf_bind hr, nextOf_bind hm, hnext, hassoc]
      rw [List.append_cons] at hr
      refine ih hr (Nat.lt_of_succ_lt_succ hfuel) fun c hc => ?_
      rcases List.mem_append.mp hc with hc | hc
      · have := hmax c hc
        split <;> omega
      · rw [List.mem_singleton.mp hc]
        split <;> omega

theorem raceLoop_sim {fuel : Nat} {sk : Int} {clients : List Int} (hR : Rings head walk h clients) :
    Sim (Rings head walk) (fun _ => Rings head walk) (raceLoop head walk fuel sk h)
      (waitClients fuel sk clients) := by
  induction fuel generalizing h sk clients with
  | zero => exact .fault
  | succ fuel ih =>
      rw [raceLoop, waitClients]
      by_cases hsk : sk ≥ 0
      · rw [if_pos hsk, if_pos hsk]
        exact .done hR
      rw [if_neg hsk, if_neg hsk]
      obtain ⟨xs, hr, rfl, hnodup, hwalk⟩ := id hR
      have hr₀ : Ring h head ([] ++ xs) := hr
      have hnil : ∀ c ∈ ([] : List Int), c ≤ -1 := fun c hc => absurd hc List.not_mem_nil
      obtain ⟨n, hn, hfirst⟩ := hr.first
      obtain ⟨m, hm, hnext⟩ := next_front hr₀
      obtain ⟨skmax, hsets, hmax⟩ := fdSets_eq hr₀ hwalk hnil
      rw [List.nil_append] at hsets hmax
      have hall : (xs.map Prod.snd).filter (· < skmax + 1) = xs.map Prod.snd :=
        List.filter_eq_self.mpr fun c hc => decide_eq_true (Int.lt_add_one_of_le (hmax c hc))
      rw [nextOf_bind hn, hfirst, Act.bind_apply, hsets]
      simp only [Proc.bind]
      -- the type of the reply mentions the descriptors
      generalize (xs.map Prod.snd).filter (· < skmax + 1) = fds at hall ⊢
      subst hall
      refine (ask_sim hR (.select (xs.map Prod.snd))).bind ?_
      rintro reply s t ⟨rfl, rfl⟩
      cases reply with
      | none => exact .done hR
      | some ready =>
          simp only [nextOf_bind hn, hfirst, nextOf_bind hm]
          refine Sim.bind (pickNode_sim hr₀ hnodup hwalk hwalk hnext) ?_
          exact fun sk s t hR => ih hR

/-- The wait on the ring does what the wait on the list does. -/
theorem vcRace_sim {fuel : Nat} {sk : Int} {clients : List Int} (hR : Rings head walk h clients) :
    Sim (Rings head walk) (fun _ => Rings head walk) (vcRace head walk fuel sk h)
      (settle fuel sk clients) := by
  refine (raceLoop_sim hR).bind fun sk s t hR => ?_
  obtain ⟨xs, hr, rfl, hnodup, hwalk⟩ := hR
  have hr₀ : Ring s head ([] ++ xs) := hr
  obtain ⟨n, hn, hfirst⟩ := hr.first
  obtain ⟨m, hm, hnext⟩ := next_front hr₀
  simp only [nextOf_bind hn, hfirst, nextOf_bind hm]
  exact (sweep_sim hr hnodup hwalk hwalk hnext).bind fun _ s t hR => .done hR

end

/-! ## A log of the calls -/

/-- A system call and its reply. -/
structure Event where
  req : SockReq
  rep : req.Rep

/-- What `select` reports, if it reports success. -/
def Event.report : Event → Option (List Int)
  | ⟨.select _, rep⟩ => rep
  | _ => none

def Event.closed : Event → Option Int
  | ⟨.close c, _⟩ => some c
  | _ => none

def Event.isSelect : Event → Bool
  | ⟨.select _, _⟩ => true
  | _ => false

/-- Success is reported only with a socket that was asked about and is ready. -/
def Event.Fair : Event → Prop
  | ⟨.select fds, some ready⟩ => ∃ c ∈ fds, c ∈ ready
  | _ => True

def closes (w : List Event) : List Int := w.filterMap Event.closed

def selects (w : List Event) : Nat := w.countP Event.isSelect

/-- What the last `select` that did reported. -/
def lastReady (w : List Event) : List Int := (w.filterMap Event.report).getLastD []

/-- Every call is written down, and answered by anything fair. -/
@[reducible] def recorded : Still SockSig :=
  ⟨List Event, fun w e r w' => w' = w ++ [⟨e, r⟩] ∧ (⟨e, r⟩ : Event).Fair⟩

/-- None of the sockets is chosen: those that are not closed are on the list. -/
def Unchosen (fds clients : List Int) (w : List Event) : Prop := (closes w ++ clients).Perm fds

/-- `sk` is chosen: it was ready and had no error, and all the others are closed or on the list. -/
def Chosen (fds : List Int) (sk : Int) (clients : List Int) (w : List Event) : Prop :=
  (sk :: (closes w ++ clients)).Perm fds ∧ sk ∈ lastReady w ∧ ⟨.sockError sk, some (0 : Int)⟩ ∈ w

section
variable {fds xs ys zs ready : List Int} {w : List Event} {sk c : Int} {n : Nat}

theorem closes_append (w w' : List Event) : closes (w ++ w') = closes w ++ closes w' :=
  List.filterMap_append

theorem selects_append (w w' : List Event) : selects (w ++ w') = selects w + selects w' :=
  List.countP_append

/-- A call other than `select` leaves the last report. -/
theorem lastReady_append {ev : Event} (hev : ev.report = none) :
    lastReady (w ++ [ev]) = lastReady w := by
  rw [lastReady, List.filterMap_append, List.filterMap_cons_none hev, List.filterMap_nil,
    List.append_nil]
  rfl

theorem wp_sys {e : SockReq} {Q : e.Rep → List Int → List Event → Prop}
    (hQ : ∀ r, (⟨e, r⟩ : Event).Fair → Q r xs (w ++ [⟨e, r⟩])) :
    (sys e).wp (recorded.env _) (fun _ _ => True) Q xs w := by
  refine Still.wp_request trivial ?_
  rintro r w' ⟨rfl, hfair⟩
  exact hQ r hfair

theorem wp_sockErr {Q : Bool → List Int → List Event → Prop}
    (hbad : ∀ r, Q true xs (w ++ [⟨.sockError c, r⟩]))
    (hgood : Q false xs (w ++ [⟨.sockError c, some 0⟩])) :
    (sockErr c).wp (recorded.env _) (fun _ _ => True) Q xs w := by
  refine (Act.wp_bind _ _ _ _ _).mpr (wp_sys fun r _ => ?_)
  cases r with
  | none => exact hbad none
  | some arg =>
      by_cases harg : arg = 0
      · subst harg
        exact hgood
      · have htrue : (arg != 0) = true := bne_iff_ne.mpr harg
        show Q (arg != 0) xs _
        rw [htrue]
        exact hbad (some arg)

/-- A socket that failed goes from the list to those that are closed. -/
theorem Unchosen.close (h : Unchosen fds (ys ++ c :: zs) w) (r : Option Int) :
    Unchosen fds (ys ++ zs) (w ++ [⟨.sockError c, r⟩] ++ [⟨.close c, ()⟩]) := by
  have hcloses : closes (w ++ [⟨.sockError c, r⟩] ++ [⟨.close c, ()⟩]) = closes w ++ [c] := by
    rw [closes_append, closes_append]
    exact congrArg (· ++ [c]) (List.append_nil _)
  rw [Unchosen, hcloses, List.append_assoc, List.singleton_append]
  exact (List.Perm.append_left _ List.perm_middle.symm).trans h

theorem Unchosen.choose (h : Unchosen fds (ys ++ c :: zs) w) (hc : c ∈ lastReady w) :
    Chosen fds c (ys ++ zs) (w ++ [⟨.sockError c, some (0 : Int)⟩]) := by
  have hcloses : closes (w ++ [⟨.sockError c, some (0 : Int)⟩]) = closes w := by
    rw [closes_append]
    exact List.append_nil _
  refine ⟨?_, ?_, List.mem_append_right _ (List.mem_singleton_self _)⟩
  · rw [hcloses]
    refine List.Perm.trans ?_ h
    rw [← List.append_assoc, ← List.append_assoc]
    exact List.perm_middle.symm
  · rw [lastReady_append rfl]
    exact hc

theorem Unchosen.erase (h : Unchosen fds (ys ++ c :: zs) w) (hfds : fds.Nodup) :
    (ys ++ c :: zs).erase c = ys ++ zs := by
  have hnodup := (List.nodup_append.mp (h.nodup_iff.mpr hfds)).2.1
  have hys : c ∉ ys :=
    fun hmem => (List.nodup_append.mp hnodup).2.2 c hmem c List.mem_cons_self rfl
  rw [List.erase_append_right _ hys, List.erase_cons_head]

/-- The inner loop finds a socket, or closes all that were ready. -/
theorem wp_pickClient (hfds : fds.Nodup) (h : Unchosen fds (ys ++ zs) w)
    (hready : lastReady w = ready) :
    (pickClient ready zs sk).wp (recorded.env _) (fun _ _ => True)
      (fun sk' xs' w' => selects w' = selects w ∧
        (sk' = sk ∧ Unchosen fds xs' w' ∧ xs'.length ≤ (ys ++ zs).length ∧
            ((∃ c ∈ zs, c ∈ ready) → xs'.length < (ys ++ zs).length) ∨
          Chosen fds sk' xs' w')) (ys ++ zs) w := by
  induction zs generalizing ys w with
  | nil =>
      refine ⟨rfl, .inl ⟨rfl, h, Nat.le_refl _, ?_⟩⟩
      rintro ⟨c, hc, -⟩
      cases hc
  | cons c zs ih =>
      rw [pickClient]
      by_cases hc : c ∈ ready
      · rw [if_neg (not_not_intro hc), Act.wp_bind]
        have herase := h.erase hfds
        refine wp_sockErr (fun r => ?_) ?_
        · -- closed, and taken off the list
          rw [if_pos rfl, Act.wp_bind]
          refine wp_sys fun _ _ => ?_
          rw [Act.wp_bind, Act.wp_modify, herase]
          have hready' : lastReady (w ++ [⟨.sockError c, r⟩] ++ [⟨.close c, ()⟩]) = ready := by
            rw [lastReady_append rfl, lastReady_append rfl, hready]
          refine Act.wp_mono (ih (h.close r) hready') ?_
          rintro sk' xs' w' ⟨hselects, hcases⟩
          rw [selects_append, selects_append] at hselects
          refine ⟨hselects, hcases.imp_left ?_⟩
          rintro ⟨hsk, hunchosen, hle, -⟩
          have hlt : xs'.length < (ys ++ c :: zs).length := by
            rw [List.length_append] at hle
            rw [List.length_append, List.length_cons]
            omega
          exact ⟨hsk, hunchosen, Nat.le_of_lt hlt, fun _ => hlt⟩
        · rw [if_neg Bool.false_ne_true, Act.wp_bind, Act.wp_modify, herase]
          exact ⟨selects_append _ _, .inr (h.choose (hready ▸ hc))⟩
      · rw [if_pos hc]
        rw [List.append_cons] at h ⊢
        refine Act.wp_mono (ih h hready) ?_
        rintro sk' xs' w' ⟨hselects, hcases⟩
        refine ⟨hselects, hcases.imp_left ?_⟩
        rintro ⟨hsk, hunchosen, hle, hlt⟩
        refine ⟨hsk, hunchosen, hle, ?_⟩
        rintro ⟨c', hc', hmem⟩
        rcases List.mem_cons.mp hc' with rfl | hc'
        · exact absurd hmem hc
        · exact hlt ⟨c', hc', hmem⟩

/-- The state of the wait between two rounds. -/
def Waiting (fds : List Int) (fuel : Nat) (sk : Int) (clients : List Int) (w : List Event) : Prop :=
  sk < 0 ∧ Unchosen fds clients w ∧ selects w + clients.length ≤ fds.length ∧
      clients.length + 2 ≤ fuel ∨
    0 ≤ sk ∧ Chosen fds sk clients w ∧ selects w ≤ fds.length + 1 ∧ 1 ≤ fuel

/-- The state behind it. -/
def Waited (fds : List Int) (sk : Int) (clients : List Int) (w : List Event) : Prop :=
  selects w ≤ fds.length + 1 ∧
    (sk < 0 ∧ Unchosen fds clients w ∨ 0 ≤ sk ∧ Chosen fds sk clients w)

theorem wp_waitClients {fuel : Nat} (hfds : fds.Nodup) (hnonneg : ∀ c ∈ fds, 0 ≤ c)
    (h : Waiting fds fuel sk xs w) :
    (waitClients fuel sk).wp (recorded.env _) (fun _ _ => True) (Waited fds) xs w := by
  induction fuel generalizing sk xs w with
  | zero =>
      rcases h with ⟨-, -, -, hfuel⟩ | ⟨-, -, -, hfuel⟩
      · exact absurd hfuel (Nat.not_succ_le_zero _)
      · exact absurd hfuel (Nat.not_succ_le_zero _)
  | succ fuel ih =>
      rw [waitClients]
      rcases h with ⟨hsk, hunchosen, hselects, hfuel⟩ | ⟨hsk, hchosen, hselects, -⟩
      swap
      · rw [if_pos hsk]
        exact ⟨hselects, .inr ⟨hsk, hchosen⟩⟩
      rw [if_neg (Int.not_le.mpr hsk), Act.wp_bind, Act.wp_get, Act.wp_bind]
      refine wp_sys fun reply hfair => ?_
      have hone : selects (w ++ [⟨.select xs, reply⟩]) = selects w + 1 := selects_append _ _
      have hcloses : closes (w ++ [⟨.select xs, reply⟩]) = closes w := by
        rw [closes_append]
        exact List.append_nil _
      have hunchosen' : Unchosen fds ([] ++ xs) (w ++ [⟨.select xs, reply⟩]) := by
        rw [Unchosen, hcloses]
        exact hunchosen
      cases reply with
      | none =>
          refine ⟨?_, .inl ⟨hsk, hunchosen'⟩⟩
          rw [hone]
          omega
      | some ready =>
          have hready : lastReady (w ++ [⟨.select xs, some ready⟩]) = ready := by
            rw [lastReady, List.filterMap_append]
            exact List.getLastD_concat
          refine (Act.wp_bind _ _ _ _ _).mpr
            (Act.wp_mono (wp_pickClient hfds hunchosen' hready) ?_)
          rintro sk' xs' w' ⟨hcount, hcases⟩
          rw [hone] at hcount
          refine ih ?_
          rcases hcases with ⟨rfl, hleft, -, hlt⟩ | hchosen
          · have hshorter : xs'.length < xs.length := hlt hfair
            exact .inl ⟨hsk, hleft, by omega, by omega⟩
          · have hmem : sk' ∈ fds := hchosen.1.mem_iff.mp List.mem_cons_self
            exact .inr ⟨hnonneg sk' hmem, hchosen, by omega, by omega⟩

/-- The sweep closes what is left. -/
theorem wp_closeClients (zs : List Int) (w : List Event) :
    (closeClients zs).wp (recorded.env _) (fun _ _ => True)
      (fun _ xs' w' => xs' = [] ∧ closes w' = closes w ++ zs ∧ selects w' = selects w ∧
        lastReady w' = lastReady w ∧ ∀ ev ∈ w, ev ∈ w') zs w := by
  induction zs generalizing w with
  | nil => exact ⟨rfl, (List.append_nil _).symm, rfl, rfl, fun _ hev => hev⟩
  | cons c zs ih =>
      rw [closeClients, Act.wp_bind]
      refine wp_sys fun _ _ => ?_
      rw [Act.wp_bind, Act.wp_modify, List.erase_cons_head]
      refine Act.wp_mono (ih _) ?_
      rintro _ xs' w' ⟨hxs, hcloses, hselects, hready, hmem⟩
      refine ⟨hxs, ?_, ?_, ?_, fun ev hev => hmem ev (List.mem_append_left _ hev)⟩
      · rw [hcloses, closes_append, List.append_assoc]
        rfl
      · rw [hselects, selects_append]
        rfl
      · rw [hready, lastReady_append rfl]

theorem wp_settle (hfds : fds.Nodup) (hnonneg : ∀ c ∈ fds, 0 ≤ c) {fuel : Nat} (hsk : sk < 0)
    (hfuel : fds.length + 2 ≤ fuel) :
    (settle fuel sk).wp (recorded.env _) (fun _ _ => True)
      (fun sk' xs' w' => xs' = [] ∧ Waited fds sk' xs' w') fds [] := by
  have hstart : Waiting fds fuel sk fds [] :=
    .inl ⟨hsk, List.Perm.refl _, Nat.le_of_eq (Nat.zero_add _), hfuel⟩
  rw [settle, Act.wp_bind]
  refine Act.wp_mono (wp_waitClients hfds hnonneg hstart) ?_
  rintro sk' xs w ⟨hselects, hcases⟩
  rw [Act.wp_bind, Act.wp_get, Act.wp_bind]
  refine Act.wp_mono (wp_closeClients xs w) ?_
  rintro _ xs' w' ⟨rfl, hcloses, hselects', hready, hmem⟩
  refine ⟨rfl, hselects' ▸ hselects, hcases.imp ?_ ?_⟩
  · rintro ⟨hneg, hunchosen⟩
    refine ⟨hneg, ?_⟩
    rw [Unchosen, hcloses, List.append_nil]
    exact hunchosen
  · rintro ⟨hpos, hperm, hlast, hev⟩
    refine ⟨hpos, ?_, hready ▸ hlast, hmem _ hev⟩
    rw [hcloses, List.append_nil]
    exact hperm

end

/-! ## The race -/

/-- What `_create_sklist` leaves: a head, and records at addresses of their own, each with a
descriptor of its own. -/
structure Pending where
  head : Nat
  items : List (Nat × Int)
  apart : (head :: items.map Prod.fst).Nodup
  sockets : (items.map Prod.snd).Nodup
  nonneg : ∀ c ∈ items.map Prod.snd, 0 ≤ c

def Pending.fds (q : Pending) : List Int := q.items.map Prod.snd

/-- The records are added one after the other. -/
def addClients (head : Nat) : List (Nat × Int) → Heap Int → Option (Heap Int)
  | [], h => some h
  | (a, sk) :: items, h => do
      let h ← listAddTail (malloc h a sk) a head
      addClients head items h

theorem ring_addClients {head : Nat} {h : Heap Int} {xs items : List (Nat × Int)}
    (hr : Ring h head xs) (hapart : (head :: (xs ++ items).map Prod.fst).Nodup) :
    ∃ h', addClients head items h = some h' ∧ Ring h' head (xs ++ items) := by
  induction items generalizing h xs with
  | nil =>
      rw [List.append_nil]
      exact ⟨h, rfl, hr⟩
  | cons item items ih =>
      obtain ⟨a, sk⟩ := item
      have hnew : a ∉ head :: xs.map Prod.fst := by
        rw [List.map_append, ← List.cons_append] at hapart
        exact fun hmem => (List.nodup_append.mp hapart).2.2 a hmem a List.mem_cons_self rfl
      obtain ⟨h₁, hadd, hr₁⟩ := hr.add_tail (v := sk) hnew
      rw [List.append_cons] at hapart ⊢
      obtain ⟨h', hrest, hr'⟩ := ih hr₁ hapart
      refine ⟨h', ?_, hr'⟩
      rw [addClients, hadd]
      exact hrest

/-- At most one `select` more than there were sockets; the result is negative, or a socket that
was pending, was ready and had no error; every other one was closed once, and that one and
nothing else was not; the list is empty, and the head is all that is left. -/
def Settled (q : Pending) (sk : Int) (h : Heap Int) (w : List Event) : Prop :=
  selects w ≤ q.fds.length + 1 ∧
    (sk < 0 ∨ sk ∈ q.fds ∧ sk ∈ lastReady w ∧ ⟨.sockError sk, some (0 : Int)⟩ ∈ w) ∧
    (∀ c ∈ q.fds, c ≠ sk → (closes w).count c = 1) ∧
    (∀ c ∈ closes w, c ∈ q.fds ∧ c ≠ sk) ∧
    listEmpty h q.head = some true ∧ Ring h q.head []

/-- Once the list is empty, each socket is closed or chosen. -/
theorem Waited.accounts {fds : List Int} {sk : Int} {w : List Event} (h : Waited fds sk [] w)
    (hfds : fds.Nodup) (hnonneg : ∀ c ∈ fds, 0 ≤ c) :
    (∀ c ∈ fds, c ≠ sk → (closes w).count c = 1) ∧ ∀ c ∈ closes w, c ∈ fds ∧ c ≠ sk := by
  rcases h.2 with ⟨hneg, hperm⟩ | ⟨-, hperm, -⟩
  · rw [Unchosen, List.append_nil] at hperm
    refine ⟨fun c hc _ => ?_, fun c hc => ?_⟩
    · rw [hperm.count_eq]
      exact List.count_eq_one_of_mem hfds hc
    · have hmem := hperm.mem_iff.mp hc
      have hpos := hnonneg c hmem
      exact ⟨hmem, by omega⟩
  · rw [List.append_nil] at hperm
    obtain ⟨hsk, hnodup⟩ := List.nodup_cons.mp (hperm.nodup_iff.mpr hfds)
    refine ⟨fun c hc hne => ?_, fun c hc => ⟨?_, fun heq => hsk (heq ▸ hc)⟩⟩
    · have hmem := (List.mem_cons.mp (hperm.mem_iff.mpr hc)).resolve_left hne
      exact List.count_eq_one_of_mem hnodup hmem
    · exact hperm.mem_iff.mp (List.mem_cons_of_mem sk hc)

/-- However `select` and `getsockopt` answer, the race ends, with the links in order at every
system call. -/
theorem race_settles (q : Pending) (walk fuel : Nat) (sk : Int) (hsk : sk < 0)
    (hwalk : q.items.length < walk) (hfuel : q.items.length + 2 ≤ fuel) :
    ∃ h, addClients q.head q.items (listHead q.head) = some h ∧
      (vcRace q.head walk fuel sk).wp (recorded.env _) (fun h _ => ∃ xs, Ring h q.head xs)
        (Settled q) h [] := by
  obtain ⟨h, hadd, hr⟩ := ring_addClients (ring_listHead q.head) q.apart
  have hR : Rings q.head walk h q.fds := ⟨q.items, hr, rfl, q.sockets, hwalk⟩
  have hlen : q.fds.length = q.items.length := List.length_map _
  have hsettle := wp_settle q.sockets q.nonneg hsk (hlen.symm ▸ hfuel)
  refine ⟨h, hadd, (vcRace_sim hR).wp hsettle (fun s t w hR _ => ?_) fun sk s t w hR hwaited => ?_⟩
  · obtain ⟨xs, hr, -⟩ := hR
    exact ⟨xs, hr⟩
  · obtain ⟨xs, hr, hxs, -⟩ := hR
    obtain ⟨rfl, hselects, hcases⟩ := hwaited
    cases List.map_eq_nil_iff.mp hxs
    obtain ⟨m, hm, hfirst⟩ := hr.first
    have hempty : listEmpty s q.head = some true := by
      rw [listEmpty, hm, Option.map_some, hfirst, front_nil, decide_eq_true rfl]
    obtain ⟨hclosed, honly⟩ := Waited.accounts ⟨hselects, hcases⟩ q.sockets q.nonneg
    refine ⟨hselects, hcases.imp And.left ?_, hclosed, honly, hempty, hr⟩
    rintro ⟨-, hperm, hready, hev⟩
    exact ⟨hperm.mem_iff.mp List.mem_cons_self, hready, hev⟩

/-- Two sockets, 5 and 7. -/
def twoPending : Pending := ⟨16, [(32, 5), (64, 7)], by decide, by decide, by decide⟩

theorem race_settles_two :
    ∃ h, addClients 16 [(32, 5), (64, 7)] (listHead 16) = some h ∧
      (vcRace 16 3 4 (-1)).wp (recorded.env _) (fun h _ => ∃ xs, Ring h 16 xs)
        (Settled twoPending) h [] :=
  race_settles twoPending 3 4 (-1) (by decide) (by decide) (by decide)

end AdvVcom.Race
