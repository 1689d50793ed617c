/-
# `AdvVcom.Lib.Dlist` — rings of linked nodes

The intrusive doubly linked list of C programs: a head, and nodes that are part of larger
records, each with the addresses of its neighbours.  A heap says what stands at an address;
to touch an address where nothing stands gives `none`.

`Ring h head xs` says that nothing stands in the heap but the head and the nodes `xs`, and
that following the links in either direction goes once around them.

**Proved here.**

    an empty head is a ring                             (`ring_listHead`)
    adding a new node at the tail keeps the ring         (`Ring.add_tail`)
    so does taking a node out, wherever it stands        (`Ring.del`)
    a walk that starts at the head comes to every node   (`Ring.first`, `Ring.node`)
-/
import Mathlib.Data.List.Chain
import Mathlib.Data.List.Nodup
import Mathlib.Tactic.Common

namespace Lib.Dlist

/-- A node, and the rest of the record it is part of.  The head is part of none. -/
structure Node (β : Type) where
  next : Nat
  prev : Nat
  val : Option β

abbrev Heap (β : Type) := Nat → Option (Node β)

section
variable {β : Type}

/-! ## Links -/

def update (h : Heap β) (a : Nat) (f : Node β → Node β) : Option (Heap β) :=
  (h a).map fun n x => if x = a then some (f n) else h x

def setNext (h : Heap β) (a b : Nat) : Option (Heap β) := update h a fun n => { n with next := b }

def setPrev (h : Heap β) (a b : Nat) : Option (Heap β) := update h a fun n => { n with prev := b }

/-- A heap with an empty head in it. -/
def listHead (head : Nat) : Heap β := fun x => if x = head then some ⟨head, head, none⟩ else none

/-- A new record; its links are still to be set. -/
def malloc (h : Heap β) (a : Nat) (v : β) : Heap β :=
  fun x => if x = a then some ⟨0, 0, some v⟩ else h x

def free (h : Heap β) (a : Nat) : Heap β := fun x => if x = a then none else h x

/-- `list_empty` -/
def listEmpty (h : Heap β) (head : Nat) : Option Bool := (h head).map fun n => n.next = head

/-- `__list_add` -/
def link (h : Heap β) (new prev next : Nat) : Option (Heap β) := do
  let h ← setPrev h next new
  let h ← setNext h new next
  let h ← setPrev h new prev
  setNext h prev new

/-- `list_add_tail` -/
def listAddTail (h : Heap β) (new head : Nat) : Option (Heap β) := do
  let n ← h head
  link h new n.prev head

/-- `__list_del` -/
def unlink (h : Heap β) (prev next : Nat) : Option (Heap β) := do
  let h ← setPrev h next prev
  setNext h prev next

/-- `list_del`, with both poisons 0. -/
def listDel (h : Heap β) (entry : Nat) : Option (Heap β) := do
  let n ← h entry
  let h ← unlink h n.prev n.next
  let h ← setNext h entry 0
  setPrev h entry 0

/-! ## What the operations do to each node -/

/-- Every node is changed in its place. -/
def mapNodes (h : Heap β) (g : Nat → Node β → Node β) : Heap β := fun x => (h x).map (g x)

variable {h : Heap β} {g : Nat → Node β → Node β} {a : Nat}

theorem malloc_self (h : Heap β) (a : Nat) (v : β) : malloc h a v a = some ⟨0, 0, some v⟩ :=
  if_pos rfl

theorem malloc_ne {x : Nat} (hx : x ≠ a) (v : β) : malloc h a v x = h x := if_neg hx

theorem free_ne {x : Nat} (hx : x ≠ a) : free h a x = h x := if_neg hx

theorem mapNodes_id (h : Heap β) : mapNodes h (fun _ n => n) = h := by
  funext x
  exact Option.map_id'

theorem update_mapNodes (ha : (h a).isSome) (f : Node β → Node β) :
    update (mapNodes h g) a f = some (mapNodes h fun x n => if x = a then f (g x n) else g x n) := by
  obtain ⟨n, hn⟩ := Option.isSome_iff_exists.mp ha
  have hg : mapNodes h g a = some (g a n) := by rw [mapNodes, hn, Option.map_some]
  rw [update, hg, Option.map_some]
  congr 1
  funext x
  by_cases hx : x = a
  · rw [if_pos hx, hx, mapNodes, hn, Option.map_some, if_pos rfl]
  · rw [if_neg hx]
    simp only [mapNodes, if_neg hx]

theorem update_eq (ha : (h a).isSome) (f : Node β → Node β) :
    update h a f = some (mapNodes h fun x n => if x = a then f n else n) := by
  have hupdate := update_mapNodes (g := fun _ n => n) ha f
  rwa [mapNodes_id] at hupdate

/-- The node `new` between `prev` and `next`. -/
def linked (new prev next : Nat) (x : Nat) (n : Node β) : Node β :=
  { n with
    next := if x = prev then new else if x = new then next else n.next
    prev := if x = new then prev else if x = next then new else n.prev }

theorem link_eq {new prev next : Nat} (hnew : (h new).isSome) (hprev : (h prev).isSome)
    (hnext : (h next).isSome) : link h new prev next = some (mapNodes h (linked new prev next)) := by
  simp only [link, setNext, setPrev, update_eq hnext, Option.bind_eq_bind, Option.bind_some,
    update_mapNodes hnew, update_mapNodes hprev]
  congr 2
  funext x n
  unfold linked
  split <;> split <;> split <;> rfl

/-- The node `a` is out, and its neighbours `prev` and `next` are joined. -/
def unlinked (a prev next : Nat) (x : Nat) (n : Node β) : Node β :=
  { n with
    next := if x = a then 0 else if x = prev then next else n.next
    prev := if x = a then 0 else if x = next then prev else n.prev }

theorem listDel_eq {n : Node β} (ha : h a = some n) (hprev : (h n.prev).isSome)
    (hnext : (h n.next).isSome) :
    listDel h a = some (mapNodes h (unlinked a n.prev n.next)) := by
  have hsome : (h a).isSome := by rw [ha]; rfl
  rw [listDel, ha]
  simp only [unlink, setPrev, setNext, update_eq hnext, Option.bind_eq_bind, Option.bind_some,
    update_mapNodes hprev, update_mapNodes hsome]
  congr 2
  funext x m
  unfold unlinked
  split <;> split <;> split <;> rfl

/-! ## Rings -/

/-- The link from `x` to `y`, and the one back. -/
def Joined (h : Heap β) (x y : Nat) : Prop :=
  (∃ n, h x = some n ∧ n.next = y) ∧ ∃ n, h y = some n ∧ n.prev = x

/-- The heap is the head and the nodes `xs`, with what they are part of, linked in this order. -/
structure Ring (h : Heap β) (head : Nat) (xs : List (Nat × β)) : Prop where
  nodup : (head :: xs.map Prod.fst).Nodup
  chain : (head :: (xs.map Prod.fst ++ [head])).IsChain (Joined h)
  vals : ∀ x ∈ xs, ∃ n, h x.1 = some n ∧ n.val = some x.2
  owned : ∀ a, (h a).isSome → a ∈ head :: xs.map Prod.fst

/-- Where a walk stands in front of `xs`: at the first of them, or back at the head. -/
def front (head : Nat) (xs : List (Nat × β)) : Nat := (xs.map Prod.fst).headD head

variable {head : Nat} {xs ys zs : List (Nat × β)} {v : β}

theorem front_nil : front head ([] : List (Nat × β)) = head := rfl

theorem front_cons : front head ((a, v) :: xs) = a := rfl

theorem exists_front (head : Nat) (xs : List (Nat × β)) :
    ∃ rest, xs.map Prod.fst ++ [head] = front head xs :: rest := by
  cases xs with
  | nil => exact ⟨[], rfl⟩
  | cons x xs => exact ⟨xs.map Prod.fst ++ [head], rfl⟩

/-- A chain stays one as long as none of its links changes. -/
theorem chain_frame {R S : Nat → Nat → Prop} {l : List Nat} (hl : l.IsChain R)
    (hRS : ∀ x ∈ l.dropLast, ∀ y ∈ l.tail, R x y → S x y) : l.IsChain S := by
  induction l with
  | nil => exact .nil
  | cons x l ih =>
      cases l with
      | nil => exact List.isChain_singleton x
      | cons y l =>
          obtain ⟨hxy, hrest⟩ := List.isChain_cons_cons.mp hl
          refine List.isChain_cons_cons.mpr ⟨?_, ih hrest fun x' hx' y' hy' => ?_⟩
          · exact hRS x List.mem_cons_self y List.mem_cons_self hxy
          · exact hRS x' (List.mem_cons_of_mem x hx') y' (List.mem_cons_of_mem y hy')

theorem ring_listHead (head : Nat) : Ring (listHead head : Heap β) head [] := by
  have hhead : (listHead head : Heap β) head = some ⟨head, head, none⟩ := if_pos rfl
  refine ⟨List.nodup_singleton head, ?_, fun x hx => absurd hx List.not_mem_nil,
    fun a ha => ?_⟩
  · exact List.isChain_pair.mpr ⟨⟨_, hhead, rfl⟩, _, hhead, rfl⟩
  · unfold listHead at ha
    split at ha
    · rename_i heq
      exact heq ▸ List.mem_cons_self
    · cases ha

/-- The walk starts at the first node. -/
theorem Ring.first (hr : Ring h head xs) : ∃ n, h head = some n ∧ n.next = front head xs := by
  have hchain := hr.chain
  obtain ⟨rest, hfront⟩ := exists_front head xs
  rw [hfront] at hchain
  exact (List.isChain_cons_cons.mp hchain).1.1

/-- And from there it goes on to the next. -/
theorem Ring.node (hr : Ring h head (ys ++ (a, v) :: zs)) :
    ∃ n, h a = some n ∧ n.next = front head zs ∧ n.val = some v := by
  have hchain := hr.chain
  obtain ⟨rest, hfront⟩ := exists_front head zs
  rw [List.map_append, List.map_cons, List.append_assoc, List.cons_append, hfront,
    ← List.cons_append] at hchain
  obtain ⟨n, hn, hnext⟩ := (List.isChain_cons_cons.mp (List.isChain_split.mp hchain).2).1.1
  obtain ⟨m, hm, hval⟩ := hr.vals (a, v) (List.mem_append_right _ List.mem_cons_self)
  cases hn.symm.trans hm
  exact ⟨n, hn, hnext, hval⟩

/-- Links away from a node that is taken out do not change. -/
theorem joined_del {p q x y : Nat} (hxa : x ≠ a) (hxp : x ≠ p) (hya : y ≠ a) (hyq : y ≠ q)
    (hxy : Joined h x y) : Joined (free (mapNodes h (unlinked a p q)) a) x y := by
  obtain ⟨⟨n, hn, hnext⟩, m, hm, hprev⟩ := hxy
  refine ⟨⟨unlinked a p q x n, ?_, ?_⟩, unlinked a p q y m, ?_, ?_⟩
  · rw [free_ne hxa, mapNodes, hn, Option.map_some]
  · simp only [unlinked, if_neg hxa, if_neg hxp, hnext]
  · rw [free_ne hya, mapNodes, hm, Option.map_some]
  · simp only [unlinked, if_neg hya, if_neg hyq, hprev]

/-- Its neighbours are joined. -/
theorem joined_neighbours {p q : Nat} (hp : (h p).isSome) (hq : (h q).isSome) (hpa : p ≠ a)
    (hqa : q ≠ a) : Joined (free (mapNodes h (unlinked a p q)) a) p q := by
  obtain ⟨n, hn⟩ := Option.isSome_iff_exists.mp hp
  obtain ⟨m, hm⟩ := Option.isSome_iff_exists.mp hq
  refine ⟨⟨unlinked a p q p n, ?_, ?_⟩, unlinked a p q q m, ?_, ?_⟩
  · rw [free_ne hpa, mapNodes, hn, Option.map_some]
  · simp only [unlinked, if_neg hpa, if_true]
  · rw [free_ne hqa, mapNodes, hm, Option.map_some]
  · simp only [unlinked, if_neg hqa, if_true]

/-- The chain is closed over a node that is taken out.  `A` is the head and what stands before
the node, `B` what stands behind it and the head again. -/
theorem chain_del {p q : Nat} {init rest A B : List Nat} (hA : A = init ++ [p]) (hB : B = q :: rest)
    (hnodupA : A.Nodup) (hnodupB : B.Nodup) (haA : a ∉ A) (haB : a ∉ B)
    (htail : ∀ y ∈ A.tail, y ∉ B) (hlast : ∀ x ∈ B.dropLast, x ∉ A)
    (hp : (h p).isSome) (hq : (h q).isSome)
    (hchainA : A.IsChain (Joined h)) (hchainB : B.IsChain (Joined h)) :
    (A ++ B).IsChain (Joined (free (mapNodes h (unlinked a p q)) a)) := by
  subst hA hB
  have hpA : p ∈ init ++ [p] := List.mem_append_right _ (List.mem_singleton_self p)
  have hqB : q ∈ q :: rest := List.mem_cons_self
  have hleft : (init ++ [p]).IsChain (Joined (free (mapNodes h (unlinked a p q)) a)) := by
    refine chain_frame hchainA fun x hx y hy hxy => ?_
    have hxA := List.dropLast_subset _ hx
    have hyA := List.mem_of_mem_tail hy
    refine joined_del (fun e => haA (e ▸ hxA)) (fun e => ?_) (fun e => haA (e ▸ hyA))
      (fun e => htail y hy (e ▸ hqB)) hxy
    rw [List.dropLast_concat, e] at hx
    exact (List.nodup_append.mp hnodupA).2.2 p hx p (List.mem_singleton_self p) rfl
  have hright : (q :: rest).IsChain (Joined (free (mapNodes h (unlinked a p q)) a)) := by
    refine chain_frame hchainB fun x hx y hy hxy => ?_
    have hxB := List.dropLast_subset _ hx
    have hyB := List.mem_of_mem_tail hy
    refine joined_del (fun e => haB (e ▸ hxB)) (fun e => hlast x hx (e ▸ hpA))
      (fun e => haB (e ▸ hyB)) (fun e => ?_) hxy
    exact (List.nodup_cons.mp hnodupB).1 (e ▸ hy)
  rw [List.append_assoc, List.singleton_append]
  refine List.isChain_split.mpr ⟨hleft, List.isChain_cons_cons.mpr ⟨?_, hright⟩⟩
  exact joined_neighbours hp hq (fun e => haA (e ▸ hpA)) fun e => haB (e ▸ hqB)

/-- The addresses around a node: no two are the same. -/
theorem Ring.apart (hr : Ring h head (ys ++ (a, v) :: zs)) :
    (head :: ys.map Prod.fst).Nodup ∧ (zs.map Prod.fst).Nodup ∧
      a ∉ head :: ys.map Prod.fst ∧ a ∉ zs.map Prod.fst ∧
      ∀ x ∈ head :: ys.map Prod.fst, x ∉ zs.map Prod.fst := by
  have hnodup := hr.nodup
  rw [List.map_append, List.map_cons, ← List.cons_append] at hnodup
  obtain ⟨hbefore, hbehind, hdisjoint⟩ := List.nodup_append.mp hnodup
  obtain ⟨hself, hbehind⟩ := List.nodup_cons.mp hbehind
  refine ⟨hbefore, hbehind, fun ha => ?_, hself, fun x hx hx' => ?_⟩
  · exact hdisjoint a ha a List.mem_cons_self rfl
  · exact hdisjoint x hx x (List.mem_cons_of_mem a hx') rfl

/-- The records of the others are there, and no others. -/
theorem Ring.rest (hr : Ring h head (ys ++ (a, v) :: zs)) (p q : Nat) :
    (∀ x ∈ ys ++ zs, ∃ n, free (mapNodes h (unlinked a p q)) a x.1 = some n ∧ n.val = some x.2) ∧
      ∀ b, (free (mapNodes h (unlinked a p q)) a b).isSome →
        b ∈ head :: (ys ++ zs).map Prod.fst := by
  obtain ⟨-, -, haA, haZ, -⟩ := hr.apart
  refine ⟨fun x hx => ?_, fun b hb => ?_⟩
  · have hxa : x.1 ≠ a := by
      rcases List.mem_append.mp hx with hx | hx
      · exact fun e => haA (e ▸ List.mem_cons_of_mem head (List.mem_map_of_mem hx))
      · have hxZ : x.1 ∈ zs.map Prod.fst := List.mem_map_of_mem hx
        exact fun e => haZ (e ▸ hxZ)
    obtain ⟨m, hm, hval⟩ := hr.vals x
      (List.mem_append.mpr ((List.mem_append.mp hx).imp id (List.mem_cons_of_mem _)))
    refine ⟨unlinked a p q x.1 m, ?_, hval⟩
    rw [free_ne hxa, mapNodes, hm, Option.map_some]
  · unfold free at hb
    split at hb
    · cases hb
    rename_i hba
    rw [mapNodes, Option.isSome_map] at hb
    have howned := hr.owned b hb
    rw [List.map_append, List.map_cons, ← List.cons_append] at howned
    rw [List.map_append, ← List.cons_append]
    rcases List.mem_append.mp howned with hmem | hmem
    · exact List.mem_append_left _ hmem
    · exact List.mem_append_right _ ((List.mem_cons.mp hmem).resolve_left hba)

/-- Taking out a node and giving its record back. -/
theorem Ring.del (hr : Ring h head (ys ++ (a, v) :: zs)) :
    ∃ h', listDel h a = some h' ∧ Ring (free h' a) head (ys ++ zs) := by
  have hchain := hr.chain
  rw [List.map_append, List.map_cons, List.append_assoc, List.cons_append,
    ← List.cons_append] at hchain
  obtain ⟨hnodupA, hnodupZ, haA, haZ, hAZ⟩ := hr.apart
  obtain ⟨rest, hB⟩ := exists_front head zs
  obtain ⟨init, p, hA⟩ : ∃ init p, head :: ys.map Prod.fst = init ++ [p] :=
    ⟨_, _, (List.dropLast_append_getLast (List.cons_ne_nil _ _)).symm⟩
  generalize front head zs = q at hB
  -- p, a and q stand next to each other
  obtain ⟨hchainA, hchainB⟩ := List.isChain_split.mp hchain
  rw [hB] at hchainB
  obtain ⟨haq, hchainB⟩ := List.isChain_cons_cons.mp hchainB
  rw [hA, List.append_assoc, List.singleton_append] at hchainA
  obtain ⟨hchainA, hpa⟩ := List.isChain_split.mp hchainA
  have hpa := List.isChain_pair.mp hpa
  obtain ⟨n, hn, hprev⟩ := hpa.2
  obtain ⟨n', hn', hnext⟩ := haq.1
  cases hn.symm.trans hn'
  have hp : (h p).isSome := by
    obtain ⟨m, hm, -⟩ := hpa.1
    rw [hm]
    rfl
  have hq : (h q).isSome := by
    obtain ⟨m, hm, -⟩ := haq.2
    rw [hm]
    rfl
  have hdel := listDel_eq hn (hprev ▸ hp) (hnext ▸ hq)
  rw [hprev, hnext] at hdel
  have hheadA : head ∈ head :: ys.map Prod.fst := List.mem_cons_self
  refine ⟨_, hdel, ?_, ?_, (hr.rest p q).1, (hr.rest p q).2⟩
  · rw [List.map_append, ← List.cons_append]
    exact List.nodup_append.mpr ⟨hnodupA, hnodupZ, fun x hx y hy e => hAZ x hx (e ▸ hy)⟩
  · rw [List.map_append, List.append_assoc, ← List.cons_append]
    refine chain_del hA hB hnodupA ?_ haA ?_ ?_ ?_ hp hq (hA ▸ hchainA) (hB ▸ hchainB)
    · refine List.nodup_append.mpr ⟨hnodupZ, List.nodup_singleton head, fun x hx y hy e => ?_⟩
      rw [List.mem_singleton.mp hy] at e
      exact hAZ head hheadA (e ▸ hx)
    · intro haB
      rcases List.mem_append.mp haB with haB | haB
      · exact haZ haB
      · exact haA (List.mem_singleton.mp haB ▸ hheadA)
    · intro y hy hyB
      rcases List.mem_append.mp hyB with hyB | hyB
      · exact hAZ y (List.mem_cons_of_mem head hy) hyB
      · exact (List.nodup_cons.mp hnodupA).1 (List.mem_singleton.mp hyB ▸ hy)
    · intro x hx hxA
      rw [List.dropLast_concat] at hx
      exact hAZ x hxA hx

/-- Links away from a new node do not change. -/
theorem joined_add {p x y : Nat} (hxa : x ≠ a) (hxp : x ≠ p) (hya : y ≠ a) (hyh : y ≠ head)
    (hxy : Joined h x y) : Joined (mapNodes (malloc h a v) (linked a p head)) x y := by
  obtain ⟨⟨n, hn, hnext⟩, m, hm, hprev⟩ := hxy
  refine ⟨⟨linked a p head x n, ?_, ?_⟩, linked a p head y m, ?_, ?_⟩
  · rw [mapNodes, malloc_ne hxa, hn, Option.map_some]
  · simp only [linked, if_neg hxp, if_neg hxa, hnext]
  · rw [mapNodes, malloc_ne hya, hm, Option.map_some]
  · simp only [linked, if_neg hya, if_neg hyh, hprev]

/-- The new node is joined to the last and to the head. -/
theorem joined_new {p : Nat} (hp : (h p).isSome) (hhead : (h head).isSome) (hpa : p ≠ a)
    (hha : head ≠ a) :
    Joined (mapNodes (malloc h a v) (linked a p head)) p a ∧
      Joined (mapNodes (malloc h a v) (linked a p head)) a head := by
  obtain ⟨n, hn⟩ := Option.isSome_iff_exists.mp hp
  obtain ⟨m, hm⟩ := Option.isSome_iff_exists.mp hhead
  have hnew : mapNodes (malloc h a v) (linked a p head) a =
      some (linked a p head a ⟨0, 0, some v⟩) := by
    rw [mapNodes, malloc_self, Option.map_some]
  refine ⟨⟨⟨linked a p head p n, ?_, ?_⟩, _, hnew, ?_⟩, ⟨_, hnew, ?_⟩, linked a p head head m, ?_, ?_⟩
  · rw [mapNodes, malloc_ne hpa, hn, Option.map_some]
  · simp only [linked, if_true]
  · simp only [linked, if_true]
  · simp only [linked, if_neg hpa.symm, if_true]
  · rw [mapNodes, malloc_ne hha, hm, Option.map_some]
  · simp only [linked, if_neg hha, if_true]

/-- The records are those that were there and the new one. -/
theorem Ring.more (hr : Ring h head xs) (ha : a ∉ head :: xs.map Prod.fst) (p : Nat) :
    (∀ x ∈ xs ++ [(a, v)], ∃ n, mapNodes (malloc h a v) (linked a p head) x.1 = some n ∧
        n.val = some x.2) ∧
      ∀ b, (mapNodes (malloc h a v) (linked a p head) b).isSome →
        b ∈ head :: (xs ++ [(a, v)]).map Prod.fst := by
  refine ⟨fun x hx => ?_, fun b hb => ?_⟩
  · rcases List.mem_append.mp hx with hx | hx
    · have hxA : x.1 ∈ head :: xs.map Prod.fst := List.mem_cons_of_mem head (List.mem_map_of_mem hx)
      have hxa : x.1 ≠ a := fun e => ha (e ▸ hxA)
      obtain ⟨m, hm, hval⟩ := hr.vals x hx
      refine ⟨linked a p head x.1 m, ?_, hval⟩
      rw [mapNodes, malloc_ne hxa, hm, Option.map_some]
    · cases List.mem_singleton.mp hx
      refine ⟨linked a p head a ⟨0, 0, some v⟩, ?_, rfl⟩
      rw [mapNodes, malloc_self, Option.map_some]
  · rw [mapNodes, Option.isSome_map] at hb
    rw [List.map_append, ← List.cons_append]
    unfold malloc at hb
    split at hb
    · rename_i hba
      exact List.mem_append_right _ (hba ▸ List.mem_singleton_self a)
    · exact List.mem_append_left _ (hr.owned b hb)

/-- A new record at the tail. -/
theorem Ring.add_tail (hr : Ring h head xs) (ha : a ∉ head :: xs.map Prod.fst) :
    ∃ h', listAddTail (malloc h a v) a head = some h' ∧ Ring h' head (xs ++ [(a, v)]) := by
  have hchain := hr.chain
  have hnodup := hr.nodup
  obtain ⟨init, p, hA⟩ : ∃ init p, head :: xs.map Prod.fst = init ++ [p] :=
    ⟨_, _, (List.dropLast_append_getLast (List.cons_ne_nil _ _)).symm⟩
  have hpA : p ∈ head :: xs.map Prod.fst :=
    hA ▸ List.mem_append_right _ (List.mem_singleton_self p)
  have hha : head ≠ a := fun e => ha (e ▸ List.mem_cons_self)
  have hpa : p ≠ a := fun e => ha (e ▸ hpA)
  -- p is the last node
  rw [← List.cons_append, hA, List.append_assoc, List.singleton_append] at hchain
  obtain ⟨hchainA, hlast⟩ := List.isChain_split.mp hchain
  obtain ⟨⟨n, hn, -⟩, m, hm, hprev⟩ := List.isChain_pair.mp hlast
  have hp : (h p).isSome := by rw [hn]; rfl
  have hhead : (h head).isSome := by rw [hm]; rfl
  have hadd : listAddTail (malloc h a v) a head =
      some (mapNodes (malloc h a v) (linked a p head)) := by
    rw [listAddTail, malloc_ne hha, hm]
    simp only [Option.bind_eq_bind, Option.bind_some, hprev]
    refine link_eq ?_ ?_ ?_
    · rw [malloc_self]
      rfl
    · rwa [malloc_ne hpa]
    · rwa [malloc_ne hha]
  obtain ⟨hjoined, hjoined'⟩ := joined_new (v := v) hp hhead hpa hha
  refine ⟨_, hadd, ?_, ?_, (hr.more ha p).1, (hr.more ha p).2⟩
  · rw [List.map_append, ← List.cons_append]
    refine List.nodup_append.mpr ⟨hnodup, List.nodup_singleton a, fun x hx y hy e => ha ?_⟩
    have hya : y = a := List.mem_singleton.mp hy
    rwa [← hya, ← e]
  · have hframe : (init ++ [p]).IsChain (Joined (mapNodes (malloc h a v) (linked a p head))) := by
      refine chain_frame hchainA fun x hx y hy hxy => ?_
      rw [← hA] at hx hy
      have hxA := List.dropLast_subset _ hx
      have hyA := List.mem_of_mem_tail hy
      refine joined_add (fun e => ha (e ▸ hxA)) (fun e => ?_) (fun e => ha (e ▸ hyA)) (fun e => ?_) hxy
      · rw [hA, List.dropLast_concat, e] at hx
        rw [hA] at hnodup
        exact (List.nodup_append.mp hnodup).2.2 p hx p (List.mem_singleton_self p) rfl
      · exact (List.nodup_cons.mp hnodup).1 (e ▸ hy)
    rw [List.map_append, List.append_assoc, ← List.cons_append, hA, List.append_assoc,
      List.singleton_append]
    refine List.isChain_split.mpr ⟨hframe, List.isChain_cons_cons.mpr ⟨hjoined, ?_⟩⟩
    exact List.isChain_pair.mpr hjoined'
end

end Lib.Dlist
