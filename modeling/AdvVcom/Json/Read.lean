/-
# `AdvVcom.Json.Read` — a path through a tree

`jstree_read` follows names and indices through a tree, and returns how many of them it got
through and the node it came to.  A name is looked for along the `l` pointers, no matter
whether these join the keys of an object or the elements of an array; and it is compared
with the raw text, be that a string or a primitive.  Behind the last name there may be a
value of any type, and of a container the node is the first in it.

In a tree that `js2tree` made, nothing hangs on the `r` pointer of a string in an array.  So
a name leads on from an object only.

**Proved here.**

    `js2tree` makes the tree that the tokens list           (`treeOf_eq_ok`)
    which is one of rows of keys and of elements            (`listed_row`)
    a name leads to the member with this literal key        (`jstreeRead_some`)
    and two names to a member of a member                   (`readPair_eq`)
-/
import AdvVcom.Json.RoundTrip

namespace AdvVcom.Json

open Lib.CStr Lib.Preorder

/-! ## The walk -/

/-- A key that `find_node` takes for this name. -/
def literal (name : List UInt8) (type : JsmnType) (data : Option (List UInt8)) : Bool :=
  (type = .primitive ∨ type = .string) ∧ data.map (upto 0) = some name

def findNode (name : List UInt8) : Tree → Tree
  | .nil => .nil
  | .node type data l r =>
      if literal name type data then .node type data l r else findNode name l

def nextNode : Nat → Tree → Tree
  | 0, node => node
  | _ + 1, .nil => .nil
  | step + 1, .node _ _ l _ => nextNode step l

/-- An argument of `jstree_read`; an index is written in brackets. -/
inductive Arg
  | key (name : List UInt8) | index (iter : Int)

/-- How an iteration ends: the loop goes on at a node, or it breaks there. -/
inductive Hop
  | on (rnode : Tree) | stop (counted : Bool) (rnode : Tree)

def keyHop (name : List UInt8) (rnode : Tree) : Hop :=
  match findNode name rnode with
  | .nil => .stop false .nil
  | .node type data l .nil => .stop false (.node type data l .nil)
  | .node type data l (.node vtype vdata vl vr) =>
      match vtype with
      | .string | .primitive => .stop true (.node vtype vdata vl vr)
      | .object | .array => .on vr
      | .undefined => .stop false (.node type data l (.node vtype vdata vl vr))

/-- `last` says that there are no more arguments. -/
def indexHop (iter : Int) (last : Bool) (rnode : Tree) : Hop :=
  match nextNode iter.toNat rnode with
  | .nil => .stop false .nil
  | .node type data l r =>
      match type with
      | .string =>
          if last then .on (.node type data l r)
          else
            match r with
            | .nil => .stop false .nil
            | .node .array _ _ vr | .node .object _ _ vr => .on vr
            | value => .on value
      | .primitive => .on (.node type data l r)
      | .object | .array => .on r
      | .undefined => .stop false (.node type data l r)

/-- The loop of `_do_jstree_read`: how many of the arguments were counted, and the node it
came to. -/
def jstreeRead : List Arg → Tree → Nat × Tree
  | [], rnode => (0, rnode)
  | arg :: args, rnode =>
      if rnode = .nil then (0, .nil)
      else
        let hop := match arg with
          | .key name => keyHop name rnode
          | .index iter => indexHop iter args.isEmpty rnode
        match hop with
        | .on rnode => ((jstreeRead args rnode).1 + 1, (jstreeRead args rnode).2)
        | .stop counted rnode => (if counted then 1 else 0, rnode)

/-! ## Rows of nodes -/

/-- What a token of a text makes: a string is one that was let through. -/
def FromToken (type : JsmnType) (data : Option (List UInt8)) : Prop :=
  type ≠ .undefined ∧ (type = .string → ∃ body, data = some body ∧ Accepted body)

/-- What `js2tree` puts together with the `l` pointers: the keys of an object, each with its
value, or the elements of an array. -/
def Tree.Row : Bool → Tree → Prop
  | _, .nil => True
  | keys, .node type data l r =>
      l.Row keys ∧ FromToken type data ∧
        if keys then r ≠ .nil ∧ r.Row false
        else
          match type with
          | .object => r.Row true
          | .array => r.Row false
          | _ => r = .nil

/-- The reader makes an element. -/
def ReadsRow (js : List UInt8) (rd : List JsmnTok → Option (Tree × List JsmnTok)) : Prop :=
  ∀ ts tree rest, Spelled js ts → rd ts = some (tree, rest) →
    tree ≠ .nil ∧ tree.Row false ∧ Spelled js rest

section
variable {js : List UInt8} {rd : List JsmnTok → Option (Tree × List JsmnTok)}
  {ts rest : List JsmnTok} {tree : Tree}

theorem Tree.Row.next {elem l : Tree} (h : elem.Row false) (hl : l.Row false) :
    (elem.next l).Row false := by
  cases elem with
  | nil => trivial
  | node type data l' r => exact ⟨hl, h.2⟩

theorem Tree.Row.link {key l r : Tree} (h : key.Row false) (hl : l.Row true) (hne : r ≠ .nil)
    (hr : r.Row false) : (key.link l r).Row true := by
  cases key with
  | nil => trivial
  | node type data l' r' => exact ⟨hl, h.2.1, hne, hr⟩

theorem ReadsRow.elements (hrd : ReadsRow js rd) {i : Nat} (hts : Spelled js ts)
    (h : readElements rd i ts = some (tree, rest)) : tree.Row false ∧ Spelled js rest := by
  induction i generalizing ts tree with
  | zero =>
      cases h
      exact ⟨trivial, hts⟩
  | succ i ih =>
      simp only [readElements, Option.bind_eq_bind, Option.bind_eq_some_iff] at h
      obtain ⟨elem, helem, more, hmore, heq⟩ := h
      cases heq
      obtain ⟨-, hrow, hbehind⟩ := hrd _ _ _ hts helem
      obtain ⟨hmoreRow, hrest⟩ := ih hbehind hmore
      exact ⟨hrow.next hmoreRow, hrest⟩

theorem ReadsRow.members (hrd : ReadsRow js rd) {i : Nat} (hts : Spelled js ts)
    (h : readMembers rd i ts = some (tree, rest)) : tree.Row true ∧ Spelled js rest := by
  induction i generalizing ts tree with
  | zero =>
      cases h
      exact ⟨trivial, hts⟩
  | succ i ih =>
      simp only [readMembers, Option.bind_eq_bind, Option.bind_eq_some_iff] at h
      obtain ⟨key, hkey, val, hval, more, hmore, heq⟩ := h
      cases heq
      obtain ⟨-, hkeyRow, hafter⟩ := hrd _ _ _ hts hkey
      obtain ⟨hne, hrow, hbehind⟩ := hrd _ _ _ hafter hval
      obtain ⟨hmoreRow, hrest⟩ := ih hbehind hmore
      exact ⟨hkeyRow.link hmoreRow hne hrow, hrest⟩

theorem readTree_row (js : List UInt8) (fuel : Nat) : ReadsRow js (readTree js fuel) := by
  induction fuel with
  | zero => exact fun ts tree rest _ h => nomatch h
  | succ fuel ih =>
      intro ts tree rest hts h
      cases ts with
      | nil => cases h
      | cons tok ts =>
          obtain ⟨htok, hbehind⟩ := List.forall_mem_cons.mp hts
          rw [readTree] at h
          cases htype : tok.type with
          | undefined =>
              simp only [htype] at h
              cases h
          | object =>
              simp only [htype, Option.bind_eq_bind, Option.bind_eq_some_iff] at h
              obtain ⟨r, hr, heq⟩ := h
              cases heq
              obtain ⟨hrow, hrest⟩ := ih.members hbehind hr
              exact ⟨nofun, ⟨trivial, ⟨nofun, nofun⟩, hrow⟩, hrest⟩
          | array =>
              simp only [htype, Option.bind_eq_bind, Option.bind_eq_some_iff] at h
              obtain ⟨r, hr, heq⟩ := h
              cases heq
              obtain ⟨hrow, hrest⟩ := ih.elements hbehind hr
              exact ⟨nofun, ⟨trivial, ⟨nofun, nofun⟩, hrow⟩, hrest⟩
          | string =>
              simp only [htype] at h
              cases h
              exact ⟨nofun, ⟨trivial, ⟨nofun, fun _ => ⟨_, rfl, htok htype⟩⟩, rfl⟩, hbehind⟩
          | primitive =>
              simp only [htype] at h
              cases h
              exact ⟨nofun, ⟨trivial, ⟨nofun, nofun⟩, rfl⟩, hbehind⟩

end

/-! ## The tree that is listed -/

/-- The tree at the front of the tokens, if they begin with a whole one. -/
def listed (s : List UInt8) : Option Tree :=
  (readTree s ((tokenize s).1.tokens.length + 1) (tokenize s).1.tokens).map Prod.fst

section
variable {s : List UInt8} {tree : Tree}

theorem listed_isSome_iff :
    (listed s).isSome ↔ (skip JsmnTok.need 1 (tokenize s).1.tokens).isSome := by
  have htyped : Typed (tokenize s).1.tokens := (jsmnParse_tokens _ s).1
  rw [listed, Option.isSome_map]
  simp only [Option.isSome_iff_exists]
  constructor
  · rintro ⟨⟨tree, rest⟩, hread⟩
    exact ⟨rest, readTree_skips _ _ _ _ hread⟩
  · rintro ⟨rest, hskip⟩
    obtain ⟨tree, hread⟩ := readTree_enough _ _ rest htyped (Nat.lt_succ_self _) hskip
    exact ⟨_, hread⟩

/-- `js2tree` makes this tree, or none. -/
theorem treeOf_eq_ok : (∃ n, treeOf s = .ok (n, some tree)) ↔ listed s = some tree := by
  have htyped : Typed (tokenize s).1.tokens := (jsmnParse_tokens _ s).1
  simp only [treeOf, listed, Option.map_eq_some_iff]
  rcases Nat.eq_zero_or_pos (tokenize s).1.tokens.length with hzero | hpos
  · have hnil := List.length_eq_zero_iff.mp hzero
    have hunset : js2tree s [] (0 + 1) 0 0 = .ok (0, none) := rfl
    have hnone : readTree s (0 + 1) [] = none := rfl
    rw [hnil, List.length_nil, Int.natCast_zero, hunset, hnone]
    simp
  rcases js2tree_reads s htyped ((tokenize s).1.tokens.length + 1) 0 (tokenize s).1.tokens.length
    (Nat.zero_le _) (by omega) (by omega) with ⟨e, hcall, hread⟩ | ⟨k, tree', hcall, -, hread⟩
  · rw [List.drop_zero] at hread
    rw [hcall, hread]
    simp
  · rw [List.drop_zero] at hread
    rw [hcall, hread]
    simp

theorem listed_row (h : listed s = some tree) : tree ≠ .nil ∧ tree.Row false := by
  obtain ⟨⟨_, rest⟩, hread, rfl⟩ := Option.map_eq_some_iff.mp h
  obtain ⟨hne, hrow, -⟩ := readTree_row s _ _ _ _ (jsmnParse_tokens _ s).2 hread
  exact ⟨hne, hrow⟩

end

/-! ## Members -/

section
variable (named : JsmnType → Option (List UInt8) → Bool)

/-- The value of the first key in a row that goes by a name. -/
def Tree.lookup : Tree → Option Tree
  | .nil => none
  | .node type data l r => if named type data then some r else l.lookup

/-- The member of an object. -/
def Tree.member : Tree → Option Tree
  | .node .object _ _ r => r.lookup named
  | _ => none

end

/-- `tree->r` -/
def Tree.right : Tree → Tree
  | .nil => .nil
  | .node _ _ _ r => r

/-- The node that `jstree_read` gives for a value: itself, or what is first in it. -/
def Tree.spot : Tree → Tree
  | .node .object _ _ r => r
  | .node .array _ _ r => r
  | tree => tree

section
variable {name : List UInt8} {tree row : Tree}

theorem Tree.Row.lookup {named : JsmnType → Option (List UInt8) → Bool} {v : Tree}
    (h : row.Row true) (hv : row.lookup named = some v) : v ≠ .nil ∧ v.Row false := by
  induction row with
  | nil => cases hv
  | node type data l r ihl ihr =>
      obtain ⟨hl, -, hr⟩ := h
      rw [Tree.lookup] at hv
      split at hv
      · cases hv
        exact hr
      · exact ihl hl hv

theorem findNode_elements (h : row.Row false) : (findNode name row).right = .nil := by
  induction row with
  | nil => rfl
  | node type data l r ihl ihr =>
      obtain ⟨hl, -, hr⟩ := h
      rw [findNode]
      split
      · rename_i hlit
        have hscalar := (of_decide_eq_true hlit).1
        rcases hscalar with rfl | rfl
        · exact hr
        · exact hr
      · exact ihl hl

theorem findNode_keys (row : Tree) :
    findNode name row = .nil ∧ row.lookup (literal name) = none ∨
      ∃ type data l v, findNode name row = .node type data l v ∧
        row.lookup (literal name) = some v := by
  induction row with
  | nil => exact .inl ⟨rfl, rfl⟩
  | node type data l r ihl ihr =>
      rw [findNode, Tree.lookup]
      split
      · exact .inr ⟨type, data, l, r, rfl, rfl⟩
      · exact ihl

/-- A name does not lead on from a node with nothing on its `r` pointer. -/
theorem keyHop_of_right (h : (findNode name row).right = .nil) :
    ∃ rnode, keyHop name row = .stop false rnode := by
  rw [keyHop]
  cases hfind : findNode name row with
  | nil => exact ⟨_, rfl⟩
  | node type data l r =>
      rw [hfind] at h
      cases h
      exact ⟨_, rfl⟩

/-- A name that leads to no member is not counted. -/
theorem jstreeRead_none (args : List Arg) (h : tree.Row false)
    (hmember : tree.member (literal name) = none) :
    (jstreeRead (.key name :: args) tree.right).1 = 0 := by
  rw [jstreeRead]
  split
  · rfl
  have hstop : ∃ rnode, keyHop name tree.right = .stop false rnode := by
    cases tree with
    | nil => exact ⟨.nil, rfl⟩
    | node type data l r =>
        obtain ⟨-, htype, hr⟩ := h
        refine keyHop_of_right ?_
        cases type with
        | undefined => exact absurd rfl htype.1
        | object =>
            rcases findNode_keys r with ⟨hnil, -⟩ | ⟨_, _, _, v, -, hlookup⟩
            · exact congrArg Tree.right hnil
            · cases hlookup.symm.trans hmember
        | array => exact findNode_elements hr
        | string =>
            rw [hr, Tree.right]
            rfl
        | primitive =>
            rw [hr, Tree.right]
            rfl
  obtain ⟨rnode, hhop⟩ := hstop
  simp only [hhop]
  rfl

theorem Tree.member_eq_some {named : JsmnType → Option (List UInt8) → Bool} {v : Tree}
    (h : tree.member named = some v) :
    ∃ data l r, tree = .node .object data l r ∧ r.lookup named = some v := by
  cases tree with
  | nil => cases h
  | node type data l r =>
      cases type with
      | object => exact ⟨data, l, r, rfl, h⟩
      | _ => cases h

theorem Tree.Row.member {named : JsmnType → Option (List UInt8) → Bool} {v : Tree}
    (h : tree.Row false) (hv : tree.member named = some v) : v ≠ .nil ∧ v.Row false := by
  obtain ⟨data, l, r, rfl, hlookup⟩ := Tree.member_eq_some hv
  exact h.2.2.lookup hlookup

theorem keyHop_some (h : row.Row true) {v : Tree} (hlookup : row.lookup (literal name) = some v) :
    (v.IsContainer → keyHop name row = .on v.right) ∧
      (¬ v.IsContainer → keyHop name row = .stop true v) := by
  obtain ⟨hne, hrow⟩ := h.lookup hlookup
  rcases findNode_keys row with ⟨-, hnone⟩ | ⟨type, data, l, v', hfind, hsome⟩
  · cases hnone.symm.trans hlookup
  cases hsome.symm.trans hlookup
  rw [keyHop, hfind]
  cases v with
  | nil => exact absurd rfl hne
  | node vtype vdata vl vr =>
      cases vtype with
      | undefined => exact absurd rfl hrow.2.1.1
      | object => exact ⟨fun _ => rfl, fun hcontainer => absurd trivial hcontainer⟩
      | array => exact ⟨fun _ => rfl, fun hcontainer => absurd trivial hcontainer⟩
      | string => exact ⟨False.elim, fun _ => rfl⟩
      | primitive => exact ⟨False.elim, fun _ => rfl⟩

/-- A member that is a container is gone into, and any other is the end. -/
theorem jstreeRead_some (args : List Arg) (h : tree.Row false) {v : Tree}
    (hmember : tree.member (literal name) = some v) :
    (v.IsContainer → jstreeRead (.key name :: args) tree.right =
      ((jstreeRead args v.right).1 + 1, (jstreeRead args v.right).2)) ∧
      (¬ v.IsContainer → jstreeRead (.key name :: args) tree.right = (1, v)) := by
  obtain ⟨data, l, r, rfl, hlookup⟩ := Tree.member_eq_some hmember
  obtain ⟨hon, hstop⟩ := keyHop_some h.2.2 hlookup
  have hne : r ≠ .nil := by
    rintro rfl
    cases hlookup
  rw [jstreeRead, Tree.right, if_neg hne]
  refine ⟨fun hv => ?_, fun hv => ?_⟩
  · simp only [hon hv]
  · simp only [hstop hv, if_true]

theorem Tree.member_of_not_container {named : JsmnType → Option (List UInt8) → Bool}
    (h : ¬ tree.IsContainer) : tree.member named = none := by
  cases tree with
  | nil => rfl
  | node type data l r =>
      cases type with
      | object => exact absurd trivial h
      | _ => rfl

theorem Tree.spot_of_container (h : tree.IsContainer) : tree.spot = tree.right := by
  cases tree with
  | nil => rfl
  | node type data l r =>
      cases type with
      | object => rfl
      | array => rfl
      | _ => exact False.elim h

theorem Tree.spot_of_not_container (h : ¬ tree.IsContainer) : tree.spot = tree := by
  cases tree with
  | nil => rfl
  | node type data l r =>
      cases type with
      | object => exact absurd trivial h
      | array => exact absurd trivial h
      | _ => rfl

end

/-- `jstree_read` with two names, where it is asked for the count of two. -/
def readPair (tree : Tree) (a b : List UInt8) : Option Tree :=
  let r := jstreeRead [.key a, .key b] tree.right
  if r.1 = 2 then some r.2 else none

/-- Two names are both counted exactly if they lead to a member of a member. -/
theorem readPair_eq {tree : Tree} (h : tree.Row false) (a b : List UInt8) :
    readPair tree a b =
      ((tree.member (literal a)).bind fun v => v.member (literal b)).map Tree.spot := by
  simp only [readPair]
  cases hv : tree.member (literal a) with
  | none =>
      rw [jstreeRead_none _ h hv]
      rfl
  | some v =>
      obtain ⟨hcontainer, hscalar⟩ := jstreeRead_some [.key b] h hv
      rw [Option.bind_some]
      by_cases hv' : v.IsContainer
      · rw [hcontainer hv']
        cases hw : v.member (literal b) with
        | none =>
            rw [jstreeRead_none _ (h.member hv).2 hw]
            rfl
        | some w =>
            obtain ⟨hinner, hleaf⟩ := jstreeRead_some [] (h.member hv).2 hw
            by_cases hw' : w.IsContainer
            · rw [hinner hw', Option.map_some, Tree.spot_of_container hw']
              rfl
            · rw [hleaf hw', Option.map_some, Tree.spot_of_not_container hw']
              rfl
      · rw [hscalar hv', Tree.member_of_not_container hv']
        rfl

end AdvVcom.Json
