/-
# `AdvVcom.Json.Tree` — the tree of the tokens

`js2tree` walks through the token array with a pointer and with the number of tokens it
may read.  It takes that number for granted, though: it is only compared with zero, and it
is not one less inside a container.  How many tokens are read is up to the `size` fields.

Next to it stands a reader of lists (`readTree`) that does the same on the tokens still
left, without an index and a count.  It tells when the tokens are enough.

A null pointer is `.nil`.  A pointer that was never set is `none`, and to use it is a fault,
as is reading a token behind the array.

**Proved here.**

    `js2tree` does what the reader does, or faults          (`js2tree_reads`)
    the walk stays inside exactly if a tree is complete     (`inside_iff_skip`)
-/
import AdvVcom.Json.Jsmn
import AdvVcom.Lib.Preorder

namespace AdvVcom.Json

open Lib.Preorder
open Lib.CStr (ascii asciis)

/-! ## Trees -/

/-- A `_tree_node *`. -/
inductive Tree
  | nil
  | node (type : JsmnType) (data : Option (List UInt8)) (l r : Tree)
  deriving DecidableEq, Repr

/-- The node with its two pointers set. -/
def Tree.link : Tree → Tree → Tree → Tree
  | .nil, _, _ => .nil
  | .node type data _ _, l, r => .node type data l r

/-- The node with its left pointer set. -/
def Tree.next : Tree → Tree → Tree
  | .nil, _ => .nil
  | .node type data _ r, l => .node type data l r

/-! ## Reading from the array -/

inductive ReadFault
  | outside | unset | deep
  deriving DecidableEq, Repr

/-- The node of a `jstreeret` is put into the tree. -/
def deref : Option Tree → Except ReadFault Tree
  | some tree => .ok tree
  | none => .error .unset

section
variable (child : Nat → Int → Except ReadFault (Nat × Option Tree)) (t : Nat) (count : Int)

/-- The loop over the members of an object, with `i` still to come. -/
def membersLoop : Nat → Nat → Except ReadFault (Nat × Tree)
  | 0, j => .ok (j, .nil)
  | i + 1, j => do
      let key ← child (t + 1 + j) (count - j)
      let j := j + key.1
      let val ← child (t + 1 + j) (count - j)
      let j := j + val.1
      let node ← deref key.2
      let r ← deref val.2
      let rest ← membersLoop i j
      .ok (rest.1, node.link rest.2 r)

/-- The loop over the elements of an array. -/
def elementsLoop : Nat → Nat → Except ReadFault (Nat × Tree)
  | 0, j => .ok (j, .nil)
  | i + 1, j => do
      let elem ← child (t + 1 + j) (count - j)
      let j := j + elem.1
      let node ← deref elem.2
      let rest ← elementsLoop i j
      .ok (rest.1, node.next rest.2)

end

section
variable (js : List UInt8) (toks : List JsmnTok)

/-- `js2tree`, at the token with the index `t`. -/
def js2tree : Nat → Nat → Int → Except ReadFault (Nat × Option Tree)
  | 0, _, _ => .error .deep
  | fuel + 1, t, count =>
      if count = 0 then .ok (0, none)
      else
        match toks[t]? with
        | none => .error .outside
        | some tok =>
            match tok.type with
            | .primitive => .ok (1, some (.node .primitive (some (tok.data js)) .nil .nil))
            | .string => .ok (1, some (.node .string (some (tok.data js)) .nil .nil))
            | .object => do
                let r ← membersLoop (js2tree fuel) t count tok.size 0
                .ok (r.1 + 1, some (.node .object none .nil r.2))
            | .array => do
                let r ← elementsLoop (js2tree fuel) t count tok.size 0
                .ok (r.1 + 1, some (.node .array none .nil r.2))
            | .undefined => .ok (0, none)

/-- The call with all the tokens returns: no token is read behind the last one, and no
node is used that was not set. -/
def Inside : Prop := ∃ fuel r, js2tree js toks fuel 0 toks.length = .ok r

end

/-! ## Reading from a list -/

section
variable (rd : List JsmnTok → Option (Tree × List JsmnTok))

def readMembers : Nat → List JsmnTok → Option (Tree × List JsmnTok)
  | 0, ts => some (.nil, ts)
  | i + 1, ts => do
      let key ← rd ts
      let val ← rd key.2
      let rest ← readMembers i val.2
      some (key.1.link rest.1 val.1, rest.2)

def readElements : Nat → List JsmnTok → Option (Tree × List JsmnTok)
  | 0, ts => some (.nil, ts)
  | i + 1, ts => do
      let elem ← rd ts
      let rest ← readElements i elem.2
      some (elem.1.next rest.1, rest.2)

end

/-- A tree off the front of the tokens. -/
def readTree (js : List UInt8) : Nat → List JsmnTok → Option (Tree × List JsmnTok)
  | 0, _ => none
  | _ + 1, [] => none
  | fuel + 1, tok :: ts =>
      match tok.type with
      | .primitive => some (.node .primitive (some (tok.data js)) .nil .nil, ts)
      | .string => some (.node .string (some (tok.data js)) .nil .nil, ts)
      | .object => do
          let r ← readMembers (readTree js fuel) tok.size ts
          some (.node .object none .nil r.1, r.2)
      | .array => do
          let r ← readElements (readTree js fuel) tok.size ts
          some (.node .array none .nil r.1, r.2)
      | .undefined => none

/-! ## The walk reads what the reader reads -/

section
variable {toks : List JsmnTok}
  {rd : List JsmnTok → Option (Tree × List JsmnTok)}
  {child : Nat → Int → Except ReadFault (Nat × Option Tree)}

/-- A call at the token `t` faults where the reader fails, or makes the tree it reads. -/
def Reads (toks : List JsmnTok) (rd : List JsmnTok → Option (Tree × List JsmnTok))
    (call : Except ReadFault (Nat × Option Tree)) (t : Nat) : Prop :=
  (∃ e, call = .error e ∧ rd (toks.drop t) = none) ∨
    ∃ k tree, call = .ok (k, some tree) ∧ t + k ≤ toks.length ∧
      rd (toks.drop t) = some (tree, toks.drop (t + k))

/-- The same for a loop over what stands behind the token `t`, with `j` tokens read. -/
def LoopReads (toks : List JsmnTok) (rd : List JsmnTok → Option (Tree × List JsmnTok))
    (loop : Except ReadFault (Nat × Tree)) (t j : Nat) : Prop :=
  (∃ e, loop = .error e ∧ rd (toks.drop (t + 1 + j)) = none) ∨
    ∃ k tree, loop = .ok (k, tree) ∧ t + 1 + k ≤ toks.length ∧
      rd (toks.drop (t + 1 + j)) = some (tree, toks.drop (t + 1 + k))

/-- All calls with a count that is not less than the tokens left, and not zero. -/
def ChildReads (toks : List JsmnTok) (rd : List JsmnTok → Option (Tree × List JsmnTok))
    (child : Nat → Int → Except ReadFault (Nat × Option Tree)) : Prop :=
  ∀ t count, t ≤ toks.length → (toks.length : Int) - t ≤ count → 0 < count →
    Reads toks rd (child t count) t

section
variable {t : Nat} {count : Int}

theorem elementsLoop_reads (hchild : ChildReads toks rd child)
    (hcount : (toks.length : Int) - t ≤ count) (i j : Nat) (hj : t + 1 + j ≤ toks.length) :
    LoopReads toks (readElements rd i) (elementsLoop child t count i j) t j := by
  induction i generalizing j with
  | zero => exact Or.inr ⟨j, .nil, rfl, hj, rfl⟩
  | succ i ih =>
      rcases hchild (t + 1 + j) (count - j) hj (by omega) (by omega) with
        ⟨e, hcall, hrd⟩ | ⟨k, elem, hcall, hk, hrd⟩
      · exact Or.inl ⟨e, by rw [elementsLoop, hcall]; rfl, by rw [readElements, hrd]; rfl⟩
      rw [Nat.add_assoc (t + 1)] at hk hrd
      have hwalk : elementsLoop child t count (i + 1) j = (do
          let rest ← elementsLoop child t count i (j + k)
          .ok (rest.1, elem.next rest.2)) := by
        rw [elementsLoop, hcall]
        rfl
      have hread : readElements rd (i + 1) (toks.drop (t + 1 + j)) = (do
          let rest ← readElements rd i (toks.drop (t + 1 + (j + k)))
          some (elem.next rest.1, rest.2)) := by
        rw [readElements, hrd]
        rfl
      rcases ih (j + k) hk with ⟨e, hloop, hrest⟩ | ⟨n, tree, hloop, hn, hrest⟩
      · exact Or.inl ⟨e, by rw [hwalk, hloop]; rfl, by rw [hread, hrest]; rfl⟩
      · exact Or.inr ⟨n, elem.next tree, by rw [hwalk, hloop]; rfl, hn, by rw [hread, hrest]; rfl⟩

theorem membersLoop_reads (hchild : ChildReads toks rd child)
    (hcount : (toks.length : Int) - t ≤ count) (i j : Nat) (hj : t + 1 + j ≤ toks.length) :
    LoopReads toks (readMembers rd i) (membersLoop child t count i j) t j := by
  induction i generalizing j with
  | zero => exact Or.inr ⟨j, .nil, rfl, hj, rfl⟩
  | succ i ih =>
      rcases hchild (t + 1 + j) (count - j) hj (by omega) (by omega) with
        ⟨e, hcall, hrd⟩ | ⟨k, key, hcall, hk, hrd⟩
      · exact Or.inl ⟨e, by rw [membersLoop, hcall]; rfl, by rw [readMembers, hrd]; rfl⟩
      rw [Nat.add_assoc (t + 1)] at hk hrd
      have hkey : membersLoop child t count (i + 1) j = (do
          let val ← child (t + 1 + (j + k)) (count - (j + k : Nat))
          let r ← deref val.2
          let rest ← membersLoop child t count i (j + k + val.1)
          .ok (rest.1, key.link rest.2 r)) := by
        rw [membersLoop, hcall]
        rfl
      have hkey' : readMembers rd (i + 1) (toks.drop (t + 1 + j)) = (do
          let val ← rd (toks.drop (t + 1 + (j + k)))
          let rest ← readMembers rd i val.2
          some (key.link rest.1 val.1, rest.2)) := by
        rw [readMembers, hrd]
        rfl
      rcases hchild (t + 1 + (j + k)) (count - (j + k : Nat)) hk (by omega) (by omega) with
        ⟨e, hcall, hrd⟩ | ⟨k', val, hcall, hk', hrd⟩
      · exact Or.inl ⟨e, by rw [hkey, hcall]; rfl, by rw [hkey', hrd]; rfl⟩
      rw [Nat.add_assoc (t + 1)] at hk' hrd
      have hwalk : membersLoop child t count (i + 1) j = (do
          let rest ← membersLoop child t count i (j + k + k')
          .ok (rest.1, key.link rest.2 val)) := by
        rw [hkey, hcall]
        rfl
      have hread : readMembers rd (i + 1) (toks.drop (t + 1 + j)) = (do
          let rest ← readMembers rd i (toks.drop (t + 1 + (j + k + k')))
          some (key.link rest.1 val, rest.2)) := by
        rw [hkey', hrd]
        rfl
      rcases ih (j + k + k') hk' with ⟨e, hloop, hrest⟩ | ⟨n, tree, hloop, hn, hrest⟩
      · exact Or.inl ⟨e, by rw [hwalk, hloop]; rfl, by rw [hread, hrest]; rfl⟩
      · exact Or.inr ⟨n, key.link tree val, by rw [hwalk, hloop]; rfl, hn, by rw [hread, hrest]; rfl⟩

end

/-- A container is read as its loop reads what stands behind it. -/
theorem Reads.container {loop : Except ReadFault (Nat × Tree)} {type : JsmnType} {t : Nat}
    {inner : List JsmnTok → Option (Tree × List JsmnTok)} (hloop : LoopReads toks inner loop t 0)
    (hrd : rd (toks.drop t) = do
      let r ← inner (toks.drop (t + 1))
      some (.node type none .nil r.1, r.2)) :
    Reads toks rd (do let r ← loop; .ok (r.1 + 1, some (.node type none .nil r.2))) t := by
  rcases hloop with ⟨e, rfl, hinner⟩ | ⟨k, tree, rfl, hk, hinner⟩
  · exact Or.inl ⟨e, rfl, by rw [hrd, ← Nat.add_zero (t + 1), hinner]; rfl⟩
  · have hdrop : t + 1 + k = t + (k + 1) := by omega
    rw [hdrop] at hk hinner
    exact Or.inr ⟨k + 1, _, rfl, hk, by rw [hrd, ← Nat.add_zero (t + 1), hinner]; rfl⟩

theorem js2tree_reads (js : List UInt8) (htyped : Typed toks) (fuel : Nat) :
    ChildReads toks (readTree js fuel) (js2tree js toks fuel) := by
  induction fuel with
  | zero => exact fun t count ht hcount hpos => Or.inl ⟨.deep, rfl, rfl⟩
  | succ fuel ih =>
      intro t count ht hcount hpos
      have hzero : count ≠ 0 := by omega
      rw [js2tree, if_neg hzero]
      rcases Nat.lt_or_eq_of_le ht with hlt | rfl
      · have hdrop : toks.drop t = toks[t] :: toks.drop (t + 1) := List.drop_eq_getElem_cons hlt
        rw [List.getElem?_eq_getElem hlt]
        cases htype : toks[t].type with
        | undefined => exact absurd htype (htyped _ (List.getElem_mem hlt))
        | object =>
            simp only [htype]
            refine Reads.container (membersLoop_reads ih hcount toks[t].size 0 hlt) ?_
            simp only [hdrop, readTree, htype]
        | array =>
            simp only [htype]
            refine Reads.container (elementsLoop_reads ih hcount toks[t].size 0 hlt) ?_
            simp only [hdrop, readTree, htype]
        | string =>
            simp only [htype]
            refine Or.inr ⟨1, _, rfl, hlt, ?_⟩
            simp only [hdrop, readTree, htype]
        | primitive =>
            simp only [htype]
            refine Or.inr ⟨1, _, rfl, hlt, ?_⟩
            simp only [hdrop, readTree, htype]
      · rw [List.getElem?_eq_none (Nat.le_refl _)]
        exact Or.inl ⟨.outside, rfl, by rw [List.drop_length]; rfl⟩

end

/-! ## When the tokens are enough -/

/-- How many trees `js2tree` looks for behind a token. -/
def JsmnTok.need (t : JsmnTok) : Nat :=
  match t.type with
  | .object => 2 * t.size
  | .array => t.size
  | _ => 0

section
variable {js : List UInt8} {rd : List JsmnTok → Option (Tree × List JsmnTok)}

/-- What is left behind a tree does not depend on how it is read. -/
def Skips (rd : List JsmnTok → Option (Tree × List JsmnTok)) : Prop :=
  ∀ ts tree rest, rd ts = some (tree, rest) → skip JsmnTok.need 1 ts = some rest

/-- Complete trees are read, in lists with less than `n` tokens. -/
def Enough (n : Nat) (rd : List JsmnTok → Option (Tree × List JsmnTok)) : Prop :=
  ∀ ts rest, Typed ts → ts.length < n → skip JsmnTok.need 1 ts = some rest →
    ∃ tree, rd ts = some (tree, rest)

theorem Skips.elements (h : Skips rd) {i : Nat} {ts rest : List JsmnTok} {tree : Tree}
    (hread : readElements rd i ts = some (tree, rest)) : skip JsmnTok.need i ts = some rest := by
  induction i generalizing ts tree with
  | zero =>
      cases hread
      exact skip_zero _
  | succ i ih =>
      simp only [readElements, Option.bind_eq_bind, Option.bind_eq_some_iff] at hread
      obtain ⟨elem, helem, next, hnext, heq⟩ := hread
      cases heq
      rw [Nat.add_comm, skip_add, h _ _ _ helem]
      exact ih hnext

theorem Skips.members (h : Skips rd) {i : Nat} {ts rest : List JsmnTok} {tree : Tree}
    (hread : readMembers rd i ts = some (tree, rest)) :
    skip JsmnTok.need (2 * i) ts = some rest := by
  induction i generalizing ts tree with
  | zero =>
      cases hread
      exact skip_zero _
  | succ i ih =>
      simp only [readMembers, Option.bind_eq_bind, Option.bind_eq_some_iff] at hread
      obtain ⟨key, hkey, val, hval, next, hnext, heq⟩ := hread
      cases heq
      have htwo : 2 * (i + 1) = 1 + (1 + 2 * i) := by omega
      rw [htwo, skip_add, h _ _ _ hkey, Option.bind_some, skip_add, h _ _ _ hval]
      exact ih hnext

theorem Enough.elements {n : Nat} (h : Enough n rd) {i : Nat} {ts rest : List JsmnTok}
    (htyped : Typed ts) (hlen : ts.length < n) (hskip : skip JsmnTok.need i ts = some rest) :
    ∃ tree, readElements rd i ts = some (tree, rest) := by
  induction i generalizing ts with
  | zero =>
      rw [skip_zero] at hskip
      cases hskip
      exact ⟨.nil, rfl⟩
  | succ i ih =>
      rw [Nat.add_comm, skip_add] at hskip
      obtain ⟨next, hone, hrest⟩ := Option.bind_eq_some_iff.mp hskip
      obtain ⟨elem, helem⟩ := h _ _ htyped hlen hone
      obtain ⟨zs, rfl, -⟩ := skip_suffix hone
      rw [List.length_append] at hlen
      obtain ⟨tree, htree⟩ := ih htyped.behind (by omega) hrest
      exact ⟨elem.next tree, by simp [readElements, helem, htree]⟩

theorem Enough.members {n : Nat} (h : Enough n rd) {i : Nat} {ts rest : List JsmnTok}
    (htyped : Typed ts) (hlen : ts.length < n) (hskip : skip JsmnTok.need (2 * i) ts = some rest) :
    ∃ tree, readMembers rd i ts = some (tree, rest) := by
  induction i generalizing ts with
  | zero =>
      rw [Nat.mul_zero, skip_zero] at hskip
      cases hskip
      exact ⟨.nil, rfl⟩
  | succ i ih =>
      have htwo : 2 * (i + 1) = 1 + (1 + 2 * i) := by omega
      rw [htwo, skip_add] at hskip
      obtain ⟨behind, hkeySkip, hbehind⟩ := Option.bind_eq_some_iff.mp hskip
      rw [skip_add] at hbehind
      obtain ⟨next, hvalSkip, hnext⟩ := Option.bind_eq_some_iff.mp hbehind
      obtain ⟨key, hkey⟩ := h _ _ htyped hlen hkeySkip
      obtain ⟨ys, rfl, -⟩ := skip_suffix hkeySkip
      rw [List.length_append] at hlen
      obtain ⟨val, hval⟩ := h _ _ htyped.behind (by omega) hvalSkip
      obtain ⟨zs, rfl, -⟩ := skip_suffix hvalSkip
      rw [List.length_append] at hlen
      obtain ⟨tree, htree⟩ := ih htyped.behind.behind (by omega) hnext
      exact ⟨key.link tree val, by simp [readMembers, hkey, hval, htree]⟩

theorem readTree_skips (fuel : Nat) : Skips (readTree js fuel) := by
  induction fuel with
  | zero => exact fun ts tree rest h => nomatch h
  | succ fuel ih =>
      intro ts tree rest h
      cases ts with
      | nil => cases h
      | cons tok ts =>
          rw [skip, Nat.zero_add, JsmnTok.need]
          rw [readTree] at h
          cases htype : tok.type with
          | undefined =>
              simp only [htype] at h
              cases h
          | object =>
              simp only [htype, Option.bind_eq_bind, Option.bind_eq_some_iff] at h
              obtain ⟨r, hr, heq⟩ := h
              cases heq
              exact ih.members hr
          | array =>
              simp only [htype, Option.bind_eq_bind, Option.bind_eq_some_iff] at h
              obtain ⟨r, hr, heq⟩ := h
              cases heq
              exact ih.elements hr
          | string =>
              simp only [htype] at h
              cases h
              exact skip_zero _
          | primitive =>
              simp only [htype] at h
              cases h
              exact skip_zero _

theorem readTree_enough (fuel : Nat) : Enough fuel (readTree js fuel) := by
  induction fuel with
  | zero => exact fun ts rest htyped hlen => absurd hlen (Nat.not_lt_zero _)
  | succ fuel ih =>
      intro ts rest htyped hlen hskip
      cases ts with
      | nil => cases hskip
      | cons tok ts =>
          have hinner : Typed ts := fun t ht => htyped t (List.mem_cons_of_mem tok ht)
          have hshort : ts.length < fuel := Nat.lt_of_succ_lt_succ hlen
          rw [skip, Nat.zero_add, JsmnTok.need] at hskip
          rw [readTree]
          cases htype : tok.type with
          | undefined => exact absurd htype (htyped tok List.mem_cons_self)
          | object =>
              simp only [htype] at hskip ⊢
              obtain ⟨tree, htree⟩ := ih.members hinner hshort hskip
              exact ⟨.node .object none .nil tree, by rw [htree]; rfl⟩
          | array =>
              simp only [htype] at hskip ⊢
              obtain ⟨tree, htree⟩ := ih.elements hinner hshort hskip
              exact ⟨.node .array none .nil tree, by rw [htree]; rfl⟩
          | string =>
              simp only [htype, skip_zero] at hskip ⊢
              cases hskip
              exact ⟨_, rfl⟩
          | primitive =>
              simp only [htype, skip_zero] at hskip ⊢
              cases hskip
              exact ⟨_, rfl⟩

end

/-- The walk stays in the array exactly if a whole tree stands at its front. -/
theorem inside_iff_skip {js : List UInt8} {toks : List JsmnTok} (htyped : Typed toks)
    (hne : toks ≠ []) : Inside js toks ↔ (skip JsmnTok.need 1 toks).isSome := by
  have hpos : (0 : Int) < toks.length := by
    have := List.length_pos_iff.mpr hne
    omega
  constructor
  · rintro ⟨fuel, r, hr⟩
    rcases js2tree_reads js htyped fuel 0 toks.length (Nat.zero_le _) (by omega) hpos with
      ⟨e, he, -⟩ | ⟨k, tree, -, -, hread⟩
    · rw [hr] at he
      cases he
    · rw [List.drop_zero] at hread
      rw [readTree_skips fuel _ _ _ hread, Option.isSome_some]
  · intro h
    obtain ⟨rest, hrest⟩ := Option.isSome_iff_exists.mp h
    obtain ⟨tree, htree⟩ := readTree_enough (toks.length + 1) toks rest htyped
      (Nat.lt_succ_self _) hrest
    rcases js2tree_reads js htyped (toks.length + 1) 0 toks.length (Nat.zero_le _)
      (by omega) hpos with ⟨e, he, hread⟩ | ⟨k, tree, hok, -, -⟩
    · rw [List.drop_zero, htree] at hread
      cases hread
    · exact ⟨_, _, hok⟩

/-- Whatever the text, `js2tree` stays inside the tokens that `jsmn_parse` made of it
exactly if these begin with a whole tree. -/
theorem js2tree_inside_iff (num : Nat) (js : List UInt8) (p : Jsmn)
    (hparse : jsmnParse num js jsmnInit = (p, none)) (hne : p.tokens ≠ []) :
    Inside js p.tokens ↔ (skip JsmnTok.need 1 p.tokens).isSome :=
  inside_iff_skip (jsmnParse_typed hparse) hne

/-- An object with a member. -/
theorem js2tree_inside_member :
    ∃ p, jsmnParse 8 (asciis "\x7b\"a\":1\x7d") jsmnInit = (p, none) ∧
      Inside (asciis "\x7b\"a\":1\x7d") p.tokens := by
  have hparse : jsmnParse 8 (asciis "\x7b\"a\":1\x7d") jsmnInit =
      (⟨7, [⟨.object, 0, some 7, 1⟩, ⟨.string, 2, some 3, 1⟩, ⟨.primitive, 5, some 6, 0⟩], none⟩,
        none) := by decide
  exact ⟨_, hparse, (js2tree_inside_iff _ _ _ hparse (by simp)).mpr (by decide)⟩

/-- `{"a"}` passes for an object with a member, but there is no token for the value. -/
theorem js2tree_outside :
    ∃ p, jsmnParse 8 (asciis "\x7b\"a\"\x7d") jsmnInit = (p, none) ∧ p.tokens.length = 2 ∧
      ¬ Inside (asciis "\x7b\"a\"\x7d") p.tokens := by
  have hparse : jsmnParse 8 (asciis "\x7b\"a\"\x7d") jsmnInit =
      (⟨5, [⟨.object, 0, some 5, 1⟩, ⟨.string, 2, some 3, 0⟩], none⟩, none) := by decide
  refine ⟨_, hparse, rfl, fun h => ?_⟩
  rw [inside_iff_skip (jsmnParse_typed hparse) (by simp)] at h
  exact absurd h (by decide)

end AdvVcom.Json
