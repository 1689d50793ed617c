/-
# `AdvVcom.Json.RoundTrip` — printing and reading again

A JSON text has its tokens (`Json/Listing`), of these `js2tree` makes the tree of the text,
and `tree2json` prints that.  What is printed is again a text of the grammar: the same
value in another layout, with a line for each member and element.  So it has the same tree.

The length that is measured first is an `int`.  The layout takes a tab for each level before
every line, so that some ninety thousand brackets are enough for it to overflow.

**Proved here.**

    `js2tree` makes the tree of a text, of all its tokens   (`treeOf_text`)
    what is printed is the text in another layout           (`treeText_tree`)
    a text comes back exactly if its length is an `int`     (`round_trip_iff`)
-/
import AdvVcom.Json.Listing
import AdvVcom.Json.Print
import Mathlib.Data.List.TakeWhile

namespace AdvVcom.Json

open Lib Lib.CStr Lib.Snprintf

/-! ## The tree of a text -/

section
variable {js : List UInt8} {pos fuel : Nat} {tail : List UInt8} {ts : List JsmnTok}

theorem data_eq {type : JsmnType} {size : Nat} {s : List UInt8} (h : js.drop pos = s ++ tail) :
    JsmnTok.data js ⟨type, pos, some (pos + s.length), size⟩ = s := by
  rw [JsmnTok.data, h, Option.getD_some, Nat.add_sub_cancel_left, List.take_left]

theorem Body.data_tok {b : Body} {size : Nat} (h : js.drop pos = b.text ++ tail) :
    (b.tok pos size).data js = b.bytes := by
  rw [Body.text, List.append_assoc, List.cons_append] at h
  exact data_eq (drop_next h)

theorem readTree_string {b : Body} {size : Nat} (h : js.drop pos = b.text ++ tail) :
    readTree js (fuel + 1) (b.tok pos size :: ts) = some (b.leaf, ts) := by
  simp only [readTree, Body.tok]
  rw [← Body.tok, Body.data_tok h, Body.leaf]

mutual
theorem value_reads : ∀ (v : Value) {pos fuel : Nat} {tail : List UInt8} {ts : List JsmnTok},
    js.drop pos = v.text ++ tail → (v.toks pos).length ≤ fuel →
    readTree js fuel (v.toks pos ++ ts) = some (v.tree, ts)
  | .str b, pos, fuel, tail, ts, h, hfuel => by
      obtain ⟨fuel, rfl⟩ := Nat.exists_eq_add_of_le' hfuel
      exact readTree_string h
  | .prim p, pos, fuel, tail, ts, h, hfuel => by
      obtain ⟨fuel, rfl⟩ := Nat.exists_eq_add_of_le' hfuel
      rw [Value.text] at h
      simp only [Value.toks, List.length_cons, List.cons_append, List.nil_append, readTree,
        data_eq h, Value.tree]
  | .emptyArr w, pos, fuel, tail, ts, h, hfuel => by
      obtain ⟨fuel, rfl⟩ := Nat.exists_eq_add_of_le' hfuel
      rfl
  | .arr es, pos, fuel, tail, ts, h, hfuel => by
      rw [Value.toks, List.length_cons] at hfuel
      obtain ⟨fuel, rfl⟩ := Nat.exists_eq_add_of_le' (Nat.le_trans (Nat.le_add_left 1 _) hfuel)
      rw [Value.text, List.append_assoc, List.cons_append] at h
      have hes : readElements (readTree js fuel) es.count (es.toks (pos + 1) ++ ts) =
          some (es.tree, ts) := elements_read es (drop_next h) (Nat.le_of_succ_le_succ hfuel)
      rw [Value.toks, List.cons_append, readTree]
      simp only [hes]
      rfl
  | .emptyObj w, pos, fuel, tail, ts, h, hfuel => by
      obtain ⟨fuel, rfl⟩ := Nat.exists_eq_add_of_le' hfuel
      rfl
  | .obj ms, pos, fuel, tail, ts, h, hfuel => by
      rw [Value.toks, List.length_cons] at hfuel
      obtain ⟨fuel, rfl⟩ := Nat.exists_eq_add_of_le' (Nat.le_trans (Nat.le_add_left 1 _) hfuel)
      rw [Value.text, List.append_assoc, List.cons_append] at h
      have hms : readMembers (readTree js fuel) ms.count (ms.toks (pos + 1) ++ ts) =
          some (ms.tree, ts) := members_read ms (drop_next h) (Nat.le_of_succ_le_succ hfuel)
      rw [Value.toks, List.cons_append, readTree]
      simp only [hms]
      rfl

theorem elements_read : ∀ (es : Elements) {pos fuel : Nat} {tail : List UInt8} {ts : List JsmnTok},
    js.drop pos = es.text ++ tail → (es.toks pos).length ≤ fuel →
    readElements (readTree js fuel) es.count (es.toks pos ++ ts) = some (es.tree, ts)
  | .one pre v post, pos, fuel, tail, ts, h, hfuel => by
      simp only [Elements.text, List.append_assoc] at h
      have hv : readTree js fuel (v.toks (pos + pre.bytes.length) ++ ts) = some (v.tree, ts) :=
        value_reads v (drop_behind h) hfuel
      simp only [Elements.count, Elements.toks, readElements, hv]
      rfl
  | .more pre v post es, pos, fuel, tail, ts, h, hfuel => by
      simp only [Elements.toks, List.length_append] at hfuel
      simp only [Elements.text, List.append_assoc, List.cons_append] at h
      have hvalue := drop_behind h
      have hrest := drop_next (drop_behind (drop_behind hvalue))
      simp only [Elements.count, Elements.toks, readElements, List.append_assoc]
      rw [value_reads v hvalue (by omega)]
      change readElements _ _ _ >>= _ = _
      rw [elements_read es hrest (by omega)]
      rfl

theorem members_read : ∀ (ms : Members) {pos fuel : Nat} {tail : List UInt8} {ts : List JsmnTok},
    js.drop pos = ms.text ++ tail → (ms.toks pos).length ≤ fuel →
    readMembers (readTree js fuel) ms.count (ms.toks pos ++ ts) = some (ms.tree, ts)
  | .one pre key w₁ w₂ v post, pos, fuel, tail, ts, h, hfuel => by
      simp only [Members.toks, List.length_cons] at hfuel
      obtain ⟨fuel, rfl⟩ := Nat.exists_eq_add_of_le' (Nat.le_trans (Nat.le_add_left 1 _) hfuel)
      simp only [Members.text, List.append_assoc, List.cons_append] at h
      have hkey := drop_behind h
      have hvalue := drop_behind (drop_next (drop_behind (drop_behind hkey)))
      simp only [Members.count, Members.toks, readMembers, List.cons_append, readTree_string hkey]
      change readTree _ _ _ >>= _ = _
      rw [value_reads v hvalue (by omega)]
      rfl
  | .more pre key w₁ w₂ v post ms, pos, fuel, tail, ts, h, hfuel => by
      simp only [Members.toks, List.length_cons, List.length_append] at hfuel
      obtain ⟨fuel, rfl⟩ := Nat.exists_eq_add_of_le' (Nat.le_trans (Nat.le_add_left 1 _) hfuel)
      simp only [Members.text, List.append_assoc, List.cons_append] at h
      have hkey := drop_behind h
      have hvalue := drop_behind (drop_next (drop_behind (drop_behind hkey)))
      have hrest := drop_next (drop_behind (drop_behind hvalue))
      simp only [Members.count, Members.toks, readMembers, List.cons_append, List.append_assoc,
        readTree_string hkey]
      change readTree _ _ _ >>= _ = _
      rw [value_reads v hvalue (by omega)]
      change readMembers _ _ _ >>= _ = _
      rw [members_read ms hrest (by omega)]
      rfl
end

end

/-- `js2tree` with all the tokens of a text.  It calls itself no deeper than there are
tokens. -/
def treeOf (s : List UInt8) : Except ReadFault (Nat × Option Tree) :=
  let toks := (tokenize s).1.tokens
  js2tree s toks (toks.length + 1) 0 toks.length

/-- The text is parsed, and all its tokens go into the tree. -/
def TreeOf (s : List UInt8) (tree : Tree) : Prop :=
  (tokenize s).2 = none ∧ treeOf s = .ok ((tokenize s).1.tokens.length, some tree)

theorem Value.toks_ne_nil (v : Value) (pos : Nat) : v.toks pos ≠ [] := by
  cases v <;> exact List.cons_ne_nil _ _

theorem treeOf_text (d : Document) : TreeOf d.text d.value.tree := by
  have htokens := tokenize_text d
  have htyped : Typed d.toks := by
    have hparse : jsmnParse d.text.length d.text jsmnInit = _ := htokens
    exact jsmnParse_typed hparse
  refine ⟨by rw [htokens], ?_⟩
  have htext : d.text.drop d.pre.bytes.length = d.value.text ++ d.post.bytes := by
    rw [Document.text, List.append_assoc, List.drop_left]
  have hread : readTree d.text (d.toks.length + 1) d.toks = some (d.value.tree, []) := by
    have hvalue : readTree d.text (d.toks.length + 1) (d.toks ++ []) = _ :=
      value_reads d.value htext (Nat.le_succ _)
    rwa [List.append_nil] at hvalue
  have hpos : 0 < d.toks.length := List.length_pos_iff.mpr (d.value.toks_ne_nil _)
  simp only [treeOf, htokens]
  rcases js2tree_reads d.text htyped (d.toks.length + 1) 0 d.toks.length (Nat.zero_le _) (by omega)
    (by omega) with ⟨e, -, hnone⟩ | ⟨k, tree, hcall, hk, hsome⟩
  · rw [List.drop_zero, hread] at hnone
    cases hnone
  · rw [List.drop_zero, hread] at hsome
    obtain ⟨htree, hrest⟩ := Prod.mk.inj (Option.some.inj hsome)
    have hall : d.toks.length ≤ 0 + k := List.drop_eq_nil_iff.mp hrest.symm
    rw [hcall, ← htree]
    congr 2
    omega

/-! ## The printed text -/

theorem newline_ok (n : Nat) :
    ∀ c ∈ ascii '\n' :: List.replicate n (ascii '\t'), c ∈ wsBytes := by
  have htab : ascii '\t' ∈ wsBytes := by decide
  refine List.forall_mem_cons.mpr ⟨by decide, fun c hc => ?_⟩
  rwa [(List.mem_replicate.mp hc).2]

/-- A new line, with `n` tabs. -/
def newline (n : Nat) : Ws := ⟨ascii '\n' :: List.replicate n (ascii '\t'), newline_ok n⟩

def noWs : Ws := ⟨[], fun _ h => absurd h List.not_mem_nil⟩

mutual
/-- The value in the layout of `tree2json`, in a line with `n` tabs. -/
def Value.relayout : Value → Nat → Value
  | .str b, _ => .str b
  | .prim p, _ => .prim p
  | .emptyArr _, n => .emptyArr (newline n)
  | .arr es, n => .arr (es.relayout n)
  | .emptyObj _, n => .emptyObj (newline n)
  | .obj ms, n => .obj (ms.relayout n)

def Elements.relayout : Elements → Nat → Elements
  | .one _ v _, n => .one (newline (n + 1)) (v.relayout (n + 1)) (newline n)
  | .more _ v _ es, n => .more (newline (n + 1)) (v.relayout (n + 1)) noWs (es.relayout n)

def Members.relayout : Members → Nat → Members
  | .one _ key _ _ v _, n =>
      .one (newline (n + 1)) key noWs noWs (v.relayout (n + 1)) (newline n)
  | .more _ key _ _ v _ ms, n =>
      .more (newline (n + 1)) key noWs noWs (v.relayout (n + 1)) noWs (ms.relayout n)
end

mutual
theorem Value.tree_relayout : ∀ (v : Value) (n : Nat), (v.relayout n).tree = v.tree
  | .str _, _ => rfl
  | .prim _, _ => rfl
  | .emptyArr _, _ => rfl
  | .arr es, n => by rw [Value.relayout, Value.tree, es.tree_relayout n, Value.tree]
  | .emptyObj _, _ => rfl
  | .obj ms, n => by rw [Value.relayout, Value.tree, ms.tree_relayout n, Value.tree]

theorem Elements.tree_relayout : ∀ (es : Elements) (n : Nat), (es.relayout n).tree = es.tree
  | .one _ v _, n => by
      rw [Elements.relayout, Elements.tree, v.tree_relayout (n + 1), Elements.tree]
  | .more _ v _ es, n => by
      rw [Elements.relayout, Elements.tree, v.tree_relayout (n + 1), es.tree_relayout n, Elements.tree]

theorem Members.tree_relayout : ∀ (ms : Members) (n : Nat), (ms.relayout n).tree = ms.tree
  | .one _ key _ _ v _, n => by
      rw [Members.relayout, Members.tree, v.tree_relayout (n + 1), Members.tree]
  | .more _ key _ _ v _ ms, n => by
      rw [Members.relayout, Members.tree, v.tree_relayout (n + 1), ms.tree_relayout n, Members.tree]
end

theorem cstr_some {s : List UInt8} (h : 0 ∉ s) : cstr (some s) = s := by
  refine List.takeWhile_eq_self_iff.mpr fun c hc => decide_eq_true ?_
  rintro rfl
  exact h hc

theorem zero_not_mem_of_scan {m : Scan} {body : List UInt8}
    (h : scanString m (body ++ [ascii '"']) = .ok body.length) : 0 ∉ body := by
  induction body generalizing m with
  | nil => exact List.not_mem_nil
  | cons c body ih =>
      obtain ⟨m', hnext, hrest⟩ := scanString_cons_iff.mp h
      refine List.not_mem_cons_of_ne_of_not_mem ?_ (ih hrest)
      rintro rfl
      -- in no state does the scan go on behind a zero
      cases m with
      | plain => cases hnext
      | escape => cases hnext
      | hex k => cases hnext

theorem Body.cstr_bytes (b : Body) : cstr (some b.bytes) = b.bytes :=
  cstr_some (zero_not_mem_of_scan b.ok)

theorem Prim.cstr_bytes (p : Prim) : cstr (some p.bytes) = p.bytes := by
  refine cstr_some fun h => ?_
  exact absurd (p.mem_wordBytes 0 h) (by decide +kernel)

theorem Value.tree_ne_nil (v : Value) : v.tree ≠ .nil := by
  cases v <;> exact nofun

/-- The comma of a line, before the member or the element that follows. -/
def commaPieces (l : Tree) : List (List UInt8) :=
  match l with
  | .nil => []
  | .node .. => [[ascii ',']]

theorem elementPieces_next {tree : Tree} (hne : tree ≠ .nil) (l : Tree) (n : Nat) :
    elementPieces (tree.next l) n =
      List.replicate n [ascii '\t'] ++ treePieces tree n ++ commaPieces l ++ [[ascii '\n']] ++
        elementPieces l n := by
  cases tree with
  | nil => exact absurd rfl hne
  | node type data l' r =>
      rw [Tree.next, elementPieces.eq_def, treePieces]
      cases l <;> rfl

theorem memberPieces_link (key : Body) (l r : Tree) (n : Nat) :
    memberPieces (key.leaf.link l r) n =
      List.replicate n [ascii '\t'] ++ (treePieces key.leaf n ++ ([ascii ':'] :: treePieces r n)) ++
        commaPieces l ++ [[ascii '\n']] ++ memberPieces l n := by
  rw [Body.leaf, Tree.link, memberPieces.eq_def, treePieces]
  cases l <;> rfl

theorem commaPieces_elements (es : Elements) : commaPieces es.tree = [[ascii ',']] := by
  cases es with
  | one pre v post => cases v <;> rfl
  | more pre v post es => cases v <;> rfl

theorem commaPieces_members (ms : Members) : commaPieces ms.tree = [[ascii ',']] := by
  cases ms <;> rfl

theorem flatten_containerPieces (o c : UInt8) (loop : List (List UInt8)) (n : Nat) :
    (containerPieces [o, ascii '\n'] [c] loop (n + 1)).flatten =
      o :: (ascii '\n' :: loop.flatten ++ List.replicate n (ascii '\t')) ++ [c] := by
  simp [containerPieces]

theorem Body.text_leaf (b : Body) (n : Nat) : (treePieces b.leaf n).flatten = b.text := by
  simp [Body.leaf, treePieces, nodePieces, b.cstr_bytes, Body.text]

mutual
theorem Value.text_relayout : ∀ (v : Value) (n : Nat),
    (treePieces v.tree n).flatten = (v.relayout n).text
  | .str b, n => b.text_leaf n
  | .prim p, n => by
      simp [Value.tree, treePieces, nodePieces, p.cstr_bytes, Value.relayout, Value.text]
  | .emptyArr w, n => flatten_containerPieces _ _ _ n
  | .arr es, n => by
      refine (flatten_containerPieces (ascii '[') (ascii ']') _ n).trans ?_
      rw [es.text_relayout n, Value.relayout, Value.text]
  | .emptyObj w, n => flatten_containerPieces _ _ _ n
  | .obj ms, n => by
      refine (flatten_containerPieces (ascii '{') (ascii '}') _ n).trans ?_
      rw [ms.text_relayout n, Value.relayout, Value.text]

/-- The first new line is printed with the bracket, and the tabs of the last one behind the
loop. -/
theorem Elements.text_relayout : ∀ (es : Elements) (n : Nat),
    ascii '\n' :: (elementPieces es.tree (n + 1)).flatten ++ List.replicate n (ascii '\t') =
      (es.relayout n).text
  | .one _ v _, n => by
      rw [Elements.tree, elementPieces_next v.tree_ne_nil]
      simp [v.text_relayout (n + 1), commaPieces, elementPieces, Elements.relayout, Elements.text,
        newline]
  | .more _ v _ es, n => by
      rw [Elements.tree, elementPieces_next v.tree_ne_nil, commaPieces_elements]
      simp [v.text_relayout (n + 1), Elements.relayout, Elements.text, newline, noWs,
        ← es.text_relayout n]

theorem Members.text_relayout : ∀ (ms : Members) (n : Nat),
    ascii '\n' :: (memberPieces ms.tree (n + 1)).flatten ++ List.replicate n (ascii '\t') =
      (ms.relayout n).text
  | .one _ key _ _ v _, n => by
      rw [Members.tree, memberPieces_link]
      simp [v.text_relayout (n + 1), key.text_leaf, commaPieces, memberPieces, Members.relayout, Members.text,
        newline, noWs]
  | .more _ key _ _ v _ ms, n => by
      rw [Members.tree, memberPieces_link, commaPieces_members]
      simp [v.text_relayout (n + 1), key.text_leaf, Members.relayout, Members.text, newline, noWs,
        ← ms.text_relayout n]
end

theorem treeText_tree (v : Value) : treeText v.tree = (v.relayout 0).text := v.text_relayout 0

/-- What is printed of a value is a text with the same tree. -/
theorem treeOf_treeText (v : Value) : TreeOf (treeText v.tree) v.tree := by
  have htree := treeOf_text ⟨noWs, v.relayout 0, noWs⟩
  have htext : (⟨noWs, v.relayout 0, noWs⟩ : Document).text = treeText v.tree := by
    simp [Document.text, noWs, treeText_tree]
  rwa [htext, v.tree_relayout] at htree

theorem Value.treePieces_ne_nil (v : Value) (n : Nat) : treePieces v.tree n ≠ [] := by
  cases v <;> exact List.cons_ne_nil _ _

/-! ## There and back -/

/-- The tree of the text is measured, printed into a buffer of that size, and read again. -/
def RoundTrips (s : List UInt8) : Prop :=
  ∃ tree, TreeOf s tree ∧ ∃ measured, tree2json tree false 0 = .ok measured ∧
    ∃ r, tree2json tree true measured.ret = .ok r ∧ r.ret = measured.ret - 1 ∧
      InBounds measured.ret r.writes ∧
      ∀ m : Mem, ∃ text, (m.write r.writes).slice 0 measured.ret.toNat = text ++ [0] ∧ 0 ∉ text ∧
        TreeOf text tree

theorem zero_not_mem_cstr (data : Option (List UInt8)) : 0 ∉ cstr data := by
  intro h
  have hzero := List.mem_takeWhile_imp h
  simp at hzero

theorem zero_not_mem_containerPieces {o c : List UInt8} {loop : List (List UInt8)} (ho : 0 ∉ o)
    (hc : 0 ∉ c) (hloop : 0 ∉ loop.flatten) (n : Nat) :
    0 ∉ (containerPieces o c loop n).flatten := by
  have htab : 0 ∉ List.replicate (n - 1) (ascii '\t') := fun h => absurd (List.eq_of_mem_replicate h) (by decide)
  simp only [containerPieces, List.flatten_append, List.flatten_cons, List.flatten_nil,
    List.flatten_replicate_singleton, List.append_nil, List.mem_append, not_or]
  exact ⟨⟨⟨ho, hloop⟩, htab⟩, hc⟩

theorem zero_not_mem_nodePieces (type : JsmnType) (data : Option (List UInt8))
    {members elements : List (List UInt8)} (hms : 0 ∉ members.flatten) (hes : 0 ∉ elements.flatten)
    (n : Nat) : 0 ∉ (nodePieces type data members elements n).flatten := by
  have hdata := zero_not_mem_cstr data
  cases type with
  | undefined => exact List.not_mem_nil
  | object => exact zero_not_mem_containerPieces (by decide) (by decide) hms _
  | array => exact zero_not_mem_containerPieces (by decide) (by decide) hes _
  | string => 
      have hquote : 0 ≠ ascii '"' := by decide
      simp [nodePieces, hdata, hquote]
  | primitive => simpa [nodePieces] using hdata

theorem zero_not_mem_pieces (tree : Tree) (n : Nat) :
    0 ∉ (treePieces tree n).flatten ∧ 0 ∉ (memberPieces tree n).flatten ∧
      0 ∉ (elementPieces tree n).flatten := by
  induction tree generalizing n with
  | nil => exact ⟨List.not_mem_nil, List.not_mem_nil, List.not_mem_nil⟩
  | node type data l r ihl ihr =>
      obtain ⟨-, hlm, hle⟩ := ihl n
      obtain ⟨-, hrm, hre⟩ := ihr (n + 1)
      have hnode := zero_not_mem_nodePieces type data hrm hre n
      have hbytes : 0 ≠ ascii '\t' ∧ 0 ≠ ascii ':' ∧ 0 ≠ ascii ',' ∧ 0 ≠ ascii '\n' := by decide
      refine ⟨hnode, ?_, ?_⟩
      · rw [memberPieces.eq_def]
        cases l <;> simp [hbytes, hnode, hlm, (ihr n).1]
      · rw [elementPieces.eq_def]
        cases l <;> simp [hbytes, hnode, hle]

theorem tree2json_measures {tree : Tree} (hne : tree ≠ .nil)
    (hlen : ((treeText tree).length : Int) < INT_MAX) :
    tree2json tree false 0 = .ok ⟨(treeText tree).length + 1, []⟩ := by
  have hcall : tree2js tree 0 none 0 = .ok ⟨(treeText tree).length, []⟩ :=
    (tree2js_prints hne 0).fits none 0 (Int.le_of_lt hlen) (by unfold treeText at hlen; omega) (by decide)
  have hret : int ((treeText tree).length + 1) = .ok ((treeText tree).length + 1 : Int) :=
    int_ok (by unfold INT_MAX; omega) (Int.add_one_le_of_lt hlen)
  rw [tree2json]
  simp only [Bool.false_eq_true, if_false]
  rw [hcall, ok_bind, hret, ok_bind]

theorem length_of_measured {tree : Tree} (hne : tree ≠ .nil) {r : Printed}
    (h : tree2json tree false 0 = .ok r) : ((treeText tree).length : Int) < INT_MAX := by
  obtain ⟨r', hcall, hrest⟩ := bind_eq_ok h
  obtain ⟨ret, hret, hr⟩ := bind_eq_ok hrest
  have hlen := ((tree2js_prints hne 0).exact _ _ _ hcall).1
  have hle := eq_of_int hret
  unfold treeText
  omega

theorem length_of_roundTrips {d : Document} (h : RoundTrips d.text) :
    ((d.value.relayout 0).text.length : Int) < INT_MAX := by
  obtain ⟨tree, htree, measured, hmeasured, -⟩ := h
  have heq := Except.ok.inj (htree.2.symm.trans (treeOf_text d).2)
  cases heq
  rw [← treeText_tree]
  exact length_of_measured d.value.tree_ne_nil hmeasured

/-- A text comes back exactly if in the layout of the printer, and with its zero, its length
is an `int`. -/
theorem round_trip_iff (d : Document) :
    RoundTrips d.text ↔ ((d.value.relayout 0).text.length : Int) < INT_MAX := by
  refine ⟨length_of_roundTrips, fun h => ?_⟩
  have hlen : ((treeText d.value.tree).length : Int) < INT_MAX := by rwa [treeText_tree]
  have hne := d.value.tree_ne_nil
  have hsize := Int.add_one_le_of_lt hlen
  have hprint := tree2json_eq hne (by omega) hsize (Int.le_of_lt hlen)
  refine ⟨_, treeOf_text d, _, tree2json_measures hne hlen, _, hprint, ?_, ?_, fun m => ?_⟩
  · simp
  · refine (chunks_inBounds_iff _ (by omega) hsize (Int.le_of_lt hlen)).mpr fun _ => ?_
    omega
  · refine ⟨treeText d.value.tree, ?_, (zero_not_mem_pieces _ 0).1, treeOf_treeText d.value⟩
    have hwrite : m.write (chunks 0 ((treeText d.value.tree).length + 1) _) =
        m.blit 0 (treeText d.value.tree ++ [0]) :=
      write_chunks (d.value.treePieces_ne_nil 0) (Int.lt_succ _) hsize m 0
    have hlength : ((treeText d.value.tree).length + 1 : Int).toNat =
        (treeText d.value.tree ++ [0]).length := by
      rw [List.length_append, List.length_singleton]
      rfl
    simp only [hwrite, hlength]
    exact Mem.slice_blit_self m 0 _

/-! ## A text that does not come back -/

def Elements.copies (v : Value) : Nat → Elements
  | 0 => .one noWs v noWs
  | k + 1 => .more noWs v noWs (copies v k)

/-- The value in `k` arrays. -/
def Value.nest (v : Value) : Nat → Value
  | 0 => v
  | k + 1 => .arr (.one noWs (v.nest k) noWs)

theorem Elements.length_copies (v : Value) (k n : Nat) :
    (k + 1) * (n + 2) ≤ ((Elements.copies v k).relayout n).text.length := by
  induction k with
  | zero =>
      simp only [copies, relayout, text, newline, List.length_append, List.length_cons,
        List.length_replicate]
      omega
  | succ k ih =>
      rw [Nat.succ_mul]
      simp only [copies, relayout, text, newline, List.length_append, List.length_cons,
        List.length_replicate]
      omega

theorem Value.length_nest (v : Value) (k n : Nat) :
    (v.relayout (n + k)).text.length ≤ ((v.nest k).relayout n).text.length := by
  induction k generalizing n with
  | zero => exact Nat.le_refl _
  | succ k ih =>
      have hinner := ih (n + 1)
      rw [Nat.add_right_comm, Nat.add_assoc] at hinner
      simp only [nest, relayout, Elements.relayout, text, Elements.text, List.length_append,
        List.length_cons]
      omega

theorem length_nest_copies (v : Value) (k n : Nat) :
    (k + 1) * (n + 2) ≤ (((Value.arr (.copies v k)).nest n).relayout 0).text.length := by
  have hnest := Value.length_nest (.arr (.copies v k)) n 0
  have hcopies := Elements.length_copies v k (0 + n)
  rw [Value.relayout, Value.text, List.length_append, List.length_cons] at hnest
  rw [Nat.zero_add] at hnest hcopies
  omega

theorem isNumber_one : IsNumber (asciis "1") :=
  ⟨[], asciis "1", [], [], rfl, .inl rfl, ⟨⟨by decide, forall_mem_of_all (by decide)⟩, by decide⟩,
    .inl rfl, .inl rfl⟩

def Prim.one : Prim := ⟨asciis "1", .inr isNumber_one⟩

/-- A million ones, in an array that stands in some two thousand others: two megabytes. -/
def ones : Document := ⟨noWs, (Value.arr (.copies (.prim .one) 1048575)).nest 2047, noWs⟩

theorem not_round_trip_ones : ¬ RoundTrips ones.text := by
  intro h
  have hlen := length_of_roundTrips h
  have hlines := length_nest_copies (.prim .one) 1048575 2047
  simp only [ones, INT_MAX] at hlen
  omega

end AdvVcom.Json
