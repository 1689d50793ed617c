/-
# `AdvVcom.Json.Print` — a tree is printed

`tree2json` prints a tree by a row of insertions for each container, one behind the other
in the buffer (`Lib/Snprintf`).  A container is walked along the `l` pointers; `r` is what
stands in it, and for the key of a member it is the value.

The insertions get what is left of the buffer as an `int`.  It is negative as soon as the
text goes beyond the buffer, and from there on nothing is cut off any more.

**Proved here.**

    the calls print the pieces of the text                  (`tree2js_prints`)
    the buffer is respected exactly if it has room for the text but its last byte, or the
    tree is no container                                    (`tree2json_respects_iff`)
-/
import AdvVcom.Json.Tree
import AdvVcom.Lib.CStr
import AdvVcom.Lib.Snprintf

namespace AdvVcom.Json

open Lib Lib.CStr Lib.Snprintf

/-! ## The printer -/

/-- What `%s` prints of a pointer; the text for the null pointer is that of glibc. -/
def cstr (data : Option (List UInt8)) : List UInt8 := upto 0 (data.getD (asciis "(null)"))

/-- `_tree2js_insert_string` -/
def insertString (str : List UInt8) : Print := fun out outlen =>
  counted (snprintf str) out (if out = none then 0 else outlen)

def insertTabs (n : Nat) : List Print := List.replicate n (insertString [ascii '\t'])

/-- `_tree2js_walk_object` and `_tree2js_walk_array` around their loops: the brackets, and
the tabs before the closing one. -/
def walkContainer (opening closing : List UInt8) (loop : List Print) (indent : Nat) : Print :=
  walk (insertString opening :: loop ++ insertTabs (indent - 1) ++ [insertString closing])

/-- `tree2js` at a node, with the loops over what stands in it. -/
def node2js (type : JsmnType) (data : Option (List UInt8)) (members elements : List Print)
    (indent : Nat) : Print := fun out outlen =>
  let outlen := if out = none then 0 else outlen
  match type with
  | .string => snprintf (ascii '"' :: cstr data ++ [ascii '"']) out outlen
  | .primitive => snprintf (cstr data) out outlen
  | .object => walkContainer (asciis "\x7b\n") (asciis "\x7d") members (indent + 1) out outlen
  | .array => walkContainer (asciis "[\n") (asciis "]") elements (indent + 1) out outlen
  | .undefined => .ok ⟨0, []⟩

mutual
def tree2js : Tree → Nat → Print
  | .nil, _ => fun _ _ => .error .null
  | .node type data _ r, indent =>
      node2js type data (membersPrint r (indent + 1)) (elementsPrint r (indent + 1)) indent

/-- `_tree2js_insert_tree` -/
def insertTree : Tree → Nat → Print
  | .nil, _ => fun _ _ => .ok ⟨0, []⟩
  | .node type data _ r, indent =>
      counted (node2js type data (membersPrint r (indent + 1)) (elementsPrint r (indent + 1)) indent)

/-- The loop over the members of an object. -/
def membersPrint : Tree → Nat → List Print
  | .nil, _ => []
  | .node type data l r, indent =>
      insertTabs indent ++
        [counted (node2js type data (membersPrint r (indent + 1)) (elementsPrint r (indent + 1)) indent),
          insertString [ascii ':'], insertTree r indent] ++
        (match l with | .nil => [] | .node .. => [insertString [ascii ',']]) ++
        [insertString [ascii '\n']] ++ membersPrint l indent

/-- The loop over the elements of an array. -/
def elementsPrint : Tree → Nat → List Print
  | .nil, _ => []
  | .node type data l r, indent =>
      insertTabs indent ++
        [counted (node2js type data (membersPrint r (indent + 1)) (elementsPrint r (indent + 1)) indent)] ++
        (match l with | .nil => [] | .node .. => [insertString [ascii ',']]) ++
        [insertString [ascii '\n']] ++ elementsPrint l indent
end

/-- `buf` says whether there is a buffer. -/
def tree2json (tree : Tree) (buf : Bool) (bufsize : Int) : Except Fault Printed := do
  let r ← tree2js tree 0 (if buf then some 0 else none) bufsize
  let ret ← if buf then .ok r.ret else int (r.ret + 1)
  .ok { r with ret }

/-! ## The text -/

def containerPieces (opening closing : List UInt8) (loop : List (List UInt8)) (indent : Nat) :
    List (List UInt8) :=
  opening :: loop ++ List.replicate (indent - 1) [ascii '\t'] ++ [closing]

def nodePieces (type : JsmnType) (data : Option (List UInt8)) (members elements : List (List UInt8))
    (indent : Nat) : List (List UInt8) :=
  match type with
  | .string => [ascii '"' :: cstr data ++ [ascii '"']]
  | .primitive => [cstr data]
  | .object => containerPieces (asciis "\x7b\n") (asciis "\x7d") members (indent + 1)
  | .array => containerPieces (asciis "[\n") (asciis "]") elements (indent + 1)
  | .undefined => []

mutual
/-- The pieces a tree is printed in. -/
def treePieces : Tree → Nat → List (List UInt8)
  | .nil, _ => []
  | .node type data _ r, indent =>
      nodePieces type data (memberPieces r (indent + 1)) (elementPieces r (indent + 1)) indent

def memberPieces : Tree → Nat → List (List UInt8)
  | .nil, _ => []
  | .node type data l r, indent =>
      List.replicate indent [ascii '\t'] ++
        (nodePieces type data (memberPieces r (indent + 1)) (elementPieces r (indent + 1)) indent ++
          ([ascii ':'] :: treePieces r indent)) ++
        (match l with | .nil => [] | .node .. => [[ascii ',']]) ++
        [[ascii '\n']] ++ memberPieces l indent

def elementPieces : Tree → Nat → List (List UInt8)
  | .nil, _ => []
  | .node type data l r, indent =>
      List.replicate indent [ascii '\t'] ++
        nodePieces type data (memberPieces r (indent + 1)) (elementPieces r (indent + 1)) indent ++
        (match l with | .nil => [] | .node .. => [[ascii ',']]) ++
        [[ascii '\n']] ++ elementPieces l indent
end

/-- The whole text of a tree. -/
def treeText (tree : Tree) : List UInt8 := (treePieces tree 0).flatten

/-! ## The calls print it -/

theorem prints_insertString (str : List UInt8) : Prints (insertString str) [str] :=
  (prints_snprintf str).counted.unless_null

theorem printsAll_insertTabs (n : Nat) :
    PrintsAll (insertTabs n) (List.replicate n [ascii '\t']) :=
  .replicate (prints_insertString _) n

theorem prints_walkContainer (opening closing : List UInt8) {loop : List Print}
    {ps : List (List UInt8)} (h : PrintsAll loop ps) (indent : Nat) :
    Prints (walkContainer opening closing loop indent)
      (containerPieces opening closing ps indent) :=
  prints_walk (((PrintsAll.cons (prints_insertString opening) h).append
    (printsAll_insertTabs (indent - 1))).append (.one (prints_insertString closing)))

theorem prints_node2js (type : JsmnType) (data : Option (List UInt8)) {members elements : List Print}
    {ms es : List (List UInt8)} (hms : PrintsAll members ms) (hes : PrintsAll elements es)
    (indent : Nat) :
    Prints (node2js type data members elements indent) (nodePieces type data ms es indent) := by
  cases type with
  | undefined => exact prints_nothing
  | object => exact (prints_walkContainer _ _ hms (indent + 1)).unless_null
  | array => exact (prints_walkContainer _ _ hes (indent + 1)).unless_null
  | string => exact (prints_snprintf _).unless_null
  | primitive => exact (prints_snprintf _).unless_null

theorem printsAll_comma (l : Tree) :
    PrintsAll (match l with | .nil => [] | .node .. => [insertString [ascii ',']])
      (match l with | .nil => [] | .node .. => [[ascii ',']]) := by
  cases l with
  | nil => exact .nil
  | node => exact .one (prints_insertString _)

theorem inserts_print (tree : Tree) (indent : Nat) :
    Prints (insertTree tree indent) (treePieces tree indent) ∧
      PrintsAll (membersPrint tree indent) (memberPieces tree indent) ∧
      PrintsAll (elementsPrint tree indent) (elementPieces tree indent) := by
  induction tree generalizing indent with
  | nil => exact ⟨prints_nothing, .nil, .nil⟩
  | node type data l r ihl ihr =>
      obtain ⟨-, hlm, hle⟩ := ihl indent
      obtain ⟨hr, -, -⟩ := ihr indent
      obtain ⟨-, hrm, hre⟩ := ihr (indent + 1)
      have hnode := (prints_node2js type data hrm hre indent).counted
      have htabs := printsAll_insertTabs indent
      have hend := PrintsAll.one (prints_insertString [ascii '\n'])
      refine ⟨hnode, ?_, ?_⟩
      · have hmember := PrintsAll.cons hnode (.cons (prints_insertString [ascii ':']) (.one hr))
        exact (((htabs.append hmember).append (printsAll_comma l)).append hend).append hlm
      · exact (((htabs.append (.one hnode)).append (printsAll_comma l)).append hend).append hle

theorem tree2js_prints {tree : Tree} (hne : tree ≠ .nil) (indent : Nat) :
    Prints (tree2js tree indent) (treePieces tree indent) := by
  cases tree with
  | nil => exact absurd rfl hne
  | node type data l r =>
      obtain ⟨-, hrm, hre⟩ := inserts_print r (indent + 1)
      exact prints_node2js type data hrm hre indent

/-! ## The buffer -/

/-- The whole length is returned, and nothing is written at `bufsize` or beyond. -/
def Respects (tree : Tree) (bufsize : Int) : Prop :=
  ∃ r, tree2json tree true bufsize = .ok r ∧ r.ret = (treeText tree).length ∧
    InBounds bufsize r.writes

/-- An object or an array. -/
def Tree.IsContainer : Tree → Prop
  | .node .object _ _ _ => True
  | .node .array _ _ _ => True
  | _ => False

theorem tree2json_eq {tree : Tree} (hne : tree ≠ .nil) {bufsize : Int} (hsize : 0 ≤ bufsize)
    (hmax : bufsize ≤ INT_MAX) (hlen : ((treeText tree).length : Int) ≤ INT_MAX) :
    tree2json tree true bufsize =
      .ok ⟨(treeText tree).length, chunks 0 bufsize (treePieces tree 0)⟩ := by
  have hcall := (tree2js_prints hne 0).fits (some 0) bufsize hlen (by unfold treeText at hlen; omega) hmax
  rw [tree2json]
  simp only [if_true]
  rw [hcall]
  rfl

/-- The last piece of a container is its closing bracket. -/
theorem containerPieces_starts_iff {opening closing : List UInt8} {loop : List (List UInt8)}
    {indent : Nat} (hclosing : closing.length = 1) {bufsize : Int} :
    (containerPieces opening closing loop indent = [] ∨
      ((0 + (containerPieces opening closing loop indent).dropLast.flatten.length : Nat) : Int) ≤
        bufsize) ↔
      ((containerPieces opening closing loop indent).flatten.length : Int) ≤ bufsize + 1 := by
  have hne : containerPieces opening closing loop indent ≠ [] := List.concat_ne_nil _ _
  have hlast : (containerPieces opening closing loop indent).flatten.length =
      (containerPieces opening closing loop indent).dropLast.flatten.length + 1 := by
    rw [containerPieces, List.dropLast_concat, List.flatten_concat, List.length_append, hclosing]
  rw [hlast]
  refine ⟨fun h => ?_, fun h => .inr ?_⟩
  · have := h.resolve_left hne
    omega
  · omega

/-- Whether the last piece begins in the buffer. -/
theorem treePieces_starts_iff (tree : Tree) {bufsize : Int} (hsize : 0 ≤ bufsize) :
    (treePieces tree 0 = [] ∨ ((0 + (treePieces tree 0).dropLast.flatten.length : Nat) : Int) ≤
      bufsize) ↔ (tree.IsContainer → ((treeText tree).length : Int) ≤ bufsize + 1) := by
  cases tree with
  | nil => exact iff_of_true (.inl rfl) nofun
  | node type data l r =>
      cases type with
      | undefined => exact iff_of_true (.inl rfl) nofun
      | object =>
          refine (containerPieces_starts_iff rfl).trans ⟨fun h _ => h, fun h => h trivial⟩
      | array =>
          refine (containerPieces_starts_iff rfl).trans ⟨fun h _ => h, fun h => h trivial⟩
      | string => exact iff_of_true (.inr hsize) nofun
      | primitive => exact iff_of_true (.inr hsize) nofun

theorem chunks_inBounds_iff (tree : Tree) {bufsize : Int} (hsize : 0 ≤ bufsize)
    (hmax : bufsize ≤ INT_MAX) (hlen : ((treeText tree).length : Int) ≤ INT_MAX) :
    InBounds bufsize (chunks 0 bufsize (treePieces tree 0)) ↔
      (tree.IsContainer → ((treeText tree).length : Int) ≤ bufsize + 1) := by
  have hoff : ((0 + (treePieces tree 0).flatten.length : Nat) : Int) ≤ INT_MAX := by
    rw [Nat.zero_add]
    exact hlen
  have hbounds := inBounds_iff hsize hmax hoff
  rwa [Int.natCast_zero, Int.sub_zero, treePieces_starts_iff tree hsize] at hbounds

/-- A buffer is respected exactly if the tree is a string or a primitive, or the text is
longer by one byte at most; and if the length of the text is an `int`. -/
theorem tree2json_respects_iff (tree : Tree) (hne : tree ≠ .nil) (bufsize : Int)
    (hsize : 0 ≤ bufsize) (hmax : bufsize ≤ INT_MAX) :
    Respects tree bufsize ↔ ((treeText tree).length : Int) ≤ INT_MAX ∧
      (tree.IsContainer → ((treeText tree).length : Int) ≤ bufsize + 1) := by
  by_cases hlen : ((treeText tree).length : Int) ≤ INT_MAX
  · have hbounds := chunks_inBounds_iff tree hsize hmax hlen
    rw [Respects, tree2json_eq hne hsize hmax hlen]
    refine ⟨?_, fun h => ⟨_, rfl, rfl, hbounds.mpr h.2⟩⟩
    rintro ⟨r, hr, -, hin⟩
    cases hr
    exact ⟨hlen, hbounds.mp hin⟩
  · refine iff_of_false ?_ fun h => hlen h.1
    rintro ⟨r, hr, hret, -⟩
    obtain ⟨r', hcall, hrest⟩ := bind_eq_ok hr
    have hle := ((tree2js_prints hne 0).exact _ _ _ hcall).2
    cases hrest
    exact hlen (hret ▸ hle)

/-- The array `[1]`, printed in six bytes. -/
def one : Tree := .node .array none .nil (.node .primitive (some (asciis "1")) .nil .nil)

theorem respects_five : Respects one 5 := by
  refine (tree2json_respects_iff one nofun 5 (by decide) (by decide)).mpr ⟨?_, fun _ => ?_⟩
  · decide +kernel
  · decide +kernel

/-- Two bytes are overrun. -/
theorem not_respects_two : one ≠ .nil ∧ ¬ Respects one 2 := by
  refine ⟨nofun, ?_⟩
  rintro ⟨r, hr, -, hin⟩
  have hprint : tree2json one true 2 =
      .ok ⟨6, [(0, [91, 0]), (3, [49, 0]), (4, [10, 0]), (5, [93, 0])]⟩ := by decide +kernel
  rw [hprint] at hr
  cases hr
  exact absurd (hin (3, [49, 0]) (by simp)) (by decide)

end AdvVcom.Json
