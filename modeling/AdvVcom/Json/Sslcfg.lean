/-
# `AdvVcom.Json.Sslcfg` — the configuration of TLS

`loadconfig` makes a tree of the file, looks the members of `ssl` up in it and hands their
texts out.  Little is checked: an error of the parser is printed and nothing else, and of a
value neither the type nor, but for the password, the escapes are looked at.

What the file says is told by the document in it: if the parser accepts the text, the names
and the values of its strings are those of RFC 8259 (`value`).

**Proved here.**

    what is loaded is what the members with the literal names hold (`validates_iff_literally`)
    without a whole tree the loader faults                         (`not_validates_of_listed`)
-/
import AdvVcom.Json.Codec
import AdvVcom.Json.Grow
import AdvVcom.Json.Read

namespace AdvVcom.Json

open Lib Lib.CStr

/-! ## The loader -/

/-- What is looked up in `ssl`. -/
inductive Field
  | keyfile | rootca | password | acceptExpiredKey
  deriving DecidableEq, Repr

def Field.name : Field → List UInt8
  | .keyfile => asciis "keyfile"
  | .rootca => asciis "rootca"
  | .password => asciis "password"
  | .acceptExpiredKey => asciis "accept_expired_key"

/-- `vc_ssl_cfg`; a null pointer is `none`, and of the password it is the whole block. -/
structure SslCfg where
  password : List UInt8
  rootca : Option (List UInt8)
  keyfile : Option (List UInt8)
  acceptExpiredKey : Bool
  deriving DecidableEq

inductive LoadFault
  | tree (e : ReadFault) | decode (e : Snprintf.Fault) | null | outside
  deriving DecidableEq

def enable : List UInt8 := asciis "enable"

/-- The call of `jstree_read`, if it returns two. -/
def readSsl (tree : Tree) (field : Field) : Option Tree := readPair tree (asciis "ssl") field.name

/-- The string that `data.data` points to. -/
def Tree.data : Tree → Option (List UInt8)
  | .nil => none
  | .node _ data _ _ => data.map (upto 0)

/-- `rnode->data.data` -/
def nodeData (rnode : Tree) : Except LoadFault (Option (List UInt8)) :=
  if rnode = .nil then .error .null else .ok rnode.data

/-- `rnode->data.data` where `strlen` or `strcmp` reads on from it. -/
def nodeChars (rnode : Tree) : Except LoadFault (List UInt8) :=
  match rnode.data with
  | none => .error .null
  | some str => .ok str

/-- The block with the password; `heap` is what `malloc` left in it. -/
def decoded (heap : Mem) (str : List UInt8) : Except Snprintf.Fault (List UInt8) := do
  let measured ← jstreeStringDecode false 0 str
  let len := measured.ret
  let filled ← jstreeStringDecode true (len + 1) str
  .ok ((heap.write filled.writes).slice 0 (len + 1).toNat)

def loadPassword (heap : Mem) : Option Tree → Except LoadFault (List UInt8)
  | none => .ok [0]
  | some rnode => do
      let str ← nodeChars rnode
      (decoded heap str).mapError .decode

/-- The password is printed: it has to end in the block. -/
def printed (block : List UInt8) : Except LoadFault (List UInt8) :=
  if 0 ∈ block then .ok block else .error .outside

def loadAccept : Option Tree → Except LoadFault Bool
  | none => .ok false
  | some rnode => do
      let str ← nodeChars rnode
      .ok (str = enable)

/-- The part of `loadconfig` that reads the tree. -/
def loadTree (heap : Mem) (tree : Tree) : Except LoadFault (Option SslCfg) :=
  match readSsl tree .keyfile with
  | none => .ok none
  | some rnode => do
      let keyfile ← nodeData rnode
      match readSsl tree .rootca with
      | none => .ok none
      | some rnode => do
          let rootca ← nodeData rnode
          let block ← loadPassword heap (readSsl tree .password)
          let password ← printed block
          let acceptExpiredKey ← loadAccept (readSsl tree .acceptExpiredKey)
          .ok (some { password, rootca, keyfile, acceptExpiredKey })

/-- `loadconfig` with the content of the file; `none` is the return value -1. -/
def loadconfig (heap : Mem) (filedata : List UInt8) : Except LoadFault (Option SslCfg) :=
  let tok := (parseGrown filedata (filedata.length + 1) 2 jsmnInit).1.tokens
  match js2tree filedata tok (tok.length + 1) 0 tok.length with
  | .error e => .error (.tree e)
  | .ok (_, none) => .error (.tree .unset)
  | .ok (_, some tree) => loadTree heap tree

/-! ## What the file says -/

/-- A key with this name. -/
def named (name : List UInt8) (type : JsmnType) (data : Option (List UInt8)) : Bool :=
  type = .string ∧ data.map (fun body => value (units body)) = some name

/-- The tree of a text that the parser accepts. -/
def document (s : List UInt8) : Option Tree := if (tokenize s).2 = none then listed s else none

/-- The field of `ssl`, with names of one kind or the other. -/
def Tree.field (kind : List UInt8 → JsmnType → Option (List UInt8) → Bool) (tree : Tree)
    (f : Field) : Option Tree :=
  (tree.member (kind (asciis "ssl"))).bind fun v => v.member (kind f.name)

/-- The text between the quotes of a string. -/
def Tree.body : Tree → Option (List UInt8)
  | .node .string data _ _ => data
  | _ => none

/-- The value of a string. -/
def Tree.string (tree : Tree) : Option (List UInt8) := tree.body.map fun body => value (units body)

def sslString (s : List UInt8) (f : Field) : Option (List UInt8) :=
  ((document s).bind fun tree => tree.field named f).bind Tree.string

/-- There is an object `ssl` with the strings that are needed. -/
def Configured (s : List UInt8) : Prop :=
  (sslString s .keyfile).isSome ∧ (sslString s .rootca).isSome

structure Agrees (s : List UInt8) (cfg : SslCfg) : Prop where
  keyfile : cfg.keyfile = sslString s .keyfile
  rootca : cfg.rootca = sslString s .rootca
  password : ∀ str, sslString s .password = some str → cfg.password = str ++ [0]
  acceptExpiredKey : cfg.acceptExpiredKey ↔ sslString s .acceptExpiredKey = some enable

/-- A configuration is loaded as the file says, and any other file refused. -/
def Validates (s : List UInt8) : Prop :=
  ∀ heap : Mem,
    (Configured s → ∃ cfg, loadconfig heap s = .ok (some cfg) ∧ Agrees s cfg) ∧
      (¬ Configured s → loadconfig heap s = .ok none)

/-! ## What the loader does -/

section
variable {heap : Mem} {tree rnode : Tree} {cfg : SslCfg}

theorem nodeData_eq_ok {data : Option (List UInt8)} :
    nodeData rnode = .ok data ↔ rnode ≠ .nil ∧ data = rnode.data := by
  unfold nodeData
  split
  · rename_i hnil
    exact iff_of_false nofun fun h => h.1 hnil
  · rename_i hne
    exact ⟨fun h => ⟨hne, (Except.ok.inj h).symm⟩, fun h => congrArg Except.ok h.2.symm⟩

theorem nodeChars_eq_ok {str : List UInt8} : nodeChars rnode = .ok str ↔ rnode.data = some str := by
  unfold nodeChars
  split
  · rename_i hnone
    rw [hnone]
    exact iff_of_false nofun nofun
  · rename_i hsome
    rw [hsome, Option.some.injEq]
    exact ⟨Except.ok.inj, congrArg Except.ok⟩

theorem Except.bind_eq_ok_iff {ε α β : Type} {x : Except ε α} {f : α → Except ε β} {b : β} :
    x >>= f = .ok b ↔ ∃ a, x = .ok a ∧ f a = .ok b := by
  refine ⟨Except.bind_eq_ok, ?_⟩
  rintro ⟨a, rfl, h⟩
  exact h

theorem decoded_eq_ok {str block : List UInt8} :
    decoded heap str = .ok block ↔ ¬ Overruns str ∧ block = decodedBytes str := by
  by_cases hover : Overruns str
  · refine iff_of_false (fun h => ?_) fun h => h.1 hover
    obtain ⟨measured, hmeasured, -⟩ := Except.bind_eq_ok h
    rw [decode_eq, if_pos hover] at hmeasured
    cases hmeasured
  have hdecoded : decoded heap str = .ok (decodedBytes str) := by
    refine Except.bind_eq_ok_iff.mpr ⟨_, decode_bytes hover false 0, ?_⟩
    refine Except.bind_eq_ok_iff.mpr ⟨_, decode_bytes hover true _, ?_⟩
    rw [Int.sub_add_cancel, Int.toNat_natCast, slice_decoded]
  rw [hdecoded, Except.ok.injEq, and_iff_right hover, eq_comm]

theorem Except.mapError_eq_ok {ε ε' α : Type} {x : Except ε α} {f : ε → ε'} {a : α} :
    x.mapError f = .ok a ↔ x = .ok a := by
  cases x <;> simp [Except.mapError]

theorem loadPassword_eq_ok {o : Option Tree} {block : List UInt8} :
    loadPassword heap o = .ok block ↔
      o = none ∧ block = [0] ∨
        ∃ str, o.bind Tree.data = some str ∧ ¬ Overruns str ∧ block = decodedBytes str := by
  cases o with
  | none => simp [loadPassword, eq_comm]
  | some rnode =>
      simp only [loadPassword, Except.bind_eq_ok_iff, nodeChars_eq_ok, Option.bind_some, reduceCtorEq,
        false_and, false_or, Except.mapError_eq_ok, decoded_eq_ok]

theorem loadAccept_eq_ok {o : Option Tree} {accept : Bool} :
    loadAccept o = .ok accept ↔
      o = none ∧ accept = false ∨ ∃ str, o.bind Tree.data = some str ∧ (accept ↔ str = enable) := by
  cases o with
  | none => simp [loadAccept, eq_comm]
  | some rnode =>
      simp only [loadAccept, Except.bind_eq_ok_iff, nodeChars_eq_ok, Option.bind_some, reduceCtorEq,
        false_and, false_or, Except.ok.injEq]
      refine exists_congr fun str => and_congr_right fun _ => ?_
      rw [eq_comm, Bool.eq_iff_iff, decide_eq_true_iff]

theorem printed_eq_ok {block password : List UInt8} :
    printed block = .ok password ↔ 0 ∈ block ∧ password = block := by
  unfold printed
  split
  · rename_i hzero
    exact ⟨fun h => ⟨hzero, (Except.ok.inj h).symm⟩, fun h => congrArg Except.ok h.2.symm⟩
  · rename_i hzero
    exact iff_of_false nofun fun h => hzero h.1

theorem loadTree_eq_none :
    loadTree heap tree = .ok none ↔
      ∀ rnode, readSsl tree .keyfile = some rnode → rnode ≠ .nil ∧ readSsl tree .rootca = none := by
  unfold loadTree
  cases readSsl tree .keyfile with
  | none => simp
  | some rnode =>
      simp only [Except.bind_eq_ok_iff, nodeData_eq_ok, Option.some.injEq, forall_eq']
      cases readSsl tree .rootca with
      | none => simp
      | some rnode' =>
          refine iff_of_false ?_ fun h => absurd h.2 nofun
          rintro ⟨keyfile, -, h⟩
          obtain ⟨rootca, -, h⟩ := Except.bind_eq_ok h
          obtain ⟨block, -, h⟩ := Except.bind_eq_ok h
          obtain ⟨password, -, h⟩ := Except.bind_eq_ok h
          obtain ⟨accept, -, h⟩ := Except.bind_eq_ok h
          cases h

theorem loadTree_eq_some :
    loadTree heap tree = .ok (some cfg) ↔
      (∃ rnode, readSsl tree .keyfile = some rnode ∧ rnode ≠ .nil ∧ cfg.keyfile = rnode.data) ∧
      (∃ rnode, readSsl tree .rootca = some rnode ∧ rnode ≠ .nil ∧ cfg.rootca = rnode.data) ∧
      loadPassword heap (readSsl tree .password) = .ok cfg.password ∧ 0 ∈ cfg.password ∧
      loadAccept (readSsl tree .acceptExpiredKey) = .ok cfg.acceptExpiredKey := by
  unfold loadTree
  cases readSsl tree .keyfile with
  | none => exact iff_of_false nofun (by rintro ⟨⟨_, h, -⟩, -⟩; cases h)
  | some kn =>
      simp only [Except.bind_eq_ok_iff, nodeData_eq_ok]
      cases readSsl tree .rootca with
      | none => exact iff_of_false (by rintro ⟨_, -, h⟩; cases h) (by rintro ⟨-, ⟨_, h, -⟩, -⟩; cases h)
      | some rn =>
          simp only [Except.bind_eq_ok_iff, nodeData_eq_ok, printed_eq_ok]
          constructor
          · rintro ⟨_, ⟨hk, rfl⟩, _, ⟨hr, rfl⟩, block, hblock, _, ⟨hzero, rfl⟩, accept, haccept, heq⟩
            cases heq
            exact ⟨⟨kn, rfl, hk, rfl⟩, ⟨rn, rfl, hr, rfl⟩, hblock, hzero, haccept⟩
          · rintro ⟨⟨_, hkn, hk, hkeyfile⟩, ⟨_, hrn, hr, hrootca⟩, hblock, hzero, haccept⟩
            cases hkn
            cases hrn
            refine ⟨_, ⟨hk, rfl⟩, _, ⟨hr, rfl⟩, _, hblock, _, ⟨hzero, rfl⟩, _, haccept, ?_⟩
            rw [← hkeyfile, ← hrootca]

end

/-! ## What stands under the literal names -/

/-- The text that stands where the loader looks for a field. -/
def Tree.text (tree : Tree) (f : Field) : Option (List UInt8) :=
  ((tree.field literal f).map Tree.spot).bind Tree.data

/-- Under the literal names stands what the file says. -/
structure Literally (s : List UInt8) (tree : Tree) : Prop where
  keyfile : tree.text .keyfile = sslString s .keyfile
  rootca : tree.text .rootca = sslString s .rootca
  /-- There is no password and none is needed, or the decoder gets it. -/
  password : (tree.field literal .password = none ∧
      ∀ str, sslString s .password = some str → str = []) ∨
    ∃ text, tree.text .password = some text ∧ 0 ∈ decodedBytes text ∧
      ∀ str, sslString s .password = some str → decodedBytes text = str ++ [0]
  acceptExpiredKey : (tree.field literal .acceptExpiredKey = none ∧
      sslString s .acceptExpiredKey ≠ some enable) ∨
    ∃ text, tree.text .acceptExpiredKey = some text ∧
      (text = enable ↔ sslString s .acceptExpiredKey = some enable)

/-- One of the two names that are needed is not there, and the first one, if it is, does not
stand for an empty container. -/
def Lacking (tree : Tree) : Prop :=
  ∀ v, tree.field literal .keyfile = some v →
    v.spot ≠ .nil ∧ tree.field literal .rootca = none

section
variable {s : List UInt8} {heap : Mem} {tree : Tree}

theorem loadconfig_listed (h : listed s = some tree) : loadconfig heap s = loadTree heap tree := by
  obtain ⟨n, htree⟩ := treeOf_eq_ok.mpr h
  simp only [treeOf] at htree
  simp only [loadconfig, parseGrown_tokenize, htree]

theorem loadconfig_faults (heap : Mem) (h : listed s = none) :
    ∃ e, loadconfig heap s = .error e := by
  have htree : ∀ n tree, treeOf s ≠ .ok (n, some tree) := by
    intro n tree hok
    cases h.symm.trans (treeOf_eq_ok.mp ⟨n, hok⟩)
  simp only [treeOf] at htree
  simp only [loadconfig, parseGrown_tokenize]
  split
  · exact ⟨_, rfl⟩
  · exact ⟨_, rfl⟩
  · rename_i hok
    exact absurd hok (htree _ _)

theorem readSsl_eq (hrow : tree.Row false) (f : Field) :
    readSsl tree f = (tree.field literal f).map Tree.spot :=
  readPair_eq hrow _ _

theorem text_eq (hrow : tree.Row false) (f : Field) :
    tree.text f = (readSsl tree f).bind Tree.data := by
  rw [readSsl_eq hrow, Tree.text]

theorem readSsl_eq_none (hrow : tree.Row false) {f : Field} :
    readSsl tree f = none ↔ tree.field literal f = none := by
  rw [readSsl_eq hrow, Option.map_eq_none_iff]

theorem lacking_iff (hrow : tree.Row false) : loadTree heap tree = .ok none ↔ Lacking tree := by
  rw [loadTree_eq_none]
  simp only [readSsl_eq hrow, Option.map_eq_some_iff, Option.map_eq_none_iff]
  constructor
  · exact fun h v hv => h _ ⟨v, hv, rfl⟩
  · rintro h _ ⟨v, hv, rfl⟩
    exact h v hv

/-- A text that is there has been read off a node. -/
theorem text_eq_iff (hrow : tree.Row false) {f : Field} {data : Option (List UInt8)}
    (hdata : data.isSome) :
    (∃ rnode, readSsl tree f = some rnode ∧ rnode ≠ .nil ∧ data = rnode.data) ↔
      tree.text f = data := by
  obtain ⟨text, rfl⟩ := Option.isSome_iff_exists.mp hdata
  rw [text_eq hrow, Option.bind_eq_some_iff]
  refine exists_congr fun rnode => and_congr_right fun _ => ?_
  refine ⟨fun h => h.2.symm, fun h => ⟨?_, h.symm⟩⟩
  rintro rfl
  cases h

/-- A block with a zero in it is one that the decoder got to the end of. -/
theorem not_overruns_of_zero {text : List UInt8} (h : 0 ∈ decodedBytes text) : ¬ Overruns text := by
  unfold decodedBytes at h
  split at h
  · rename_i hall
    exact not_overruns hall
  · cases h

theorem password_iff (hrow : tree.Row false) (heap : Mem) (P : List UInt8 → Prop) :
    (∃ block, loadPassword heap (readSsl tree .password) = .ok block ∧ 0 ∈ block ∧ P block) ↔
      (tree.field literal .password = none ∧ P [0]) ∨
        ∃ text, tree.text .password = some text ∧ 0 ∈ decodedBytes text ∧ P (decodedBytes text) := by
  rw [text_eq hrow, ← readSsl_eq_none hrow]
  simp only [loadPassword_eq_ok]
  cases readSsl tree .password with
  | none => simp
  | some rnode =>
      simp only [reduceCtorEq, false_and, false_or]
      constructor
      · rintro ⟨block, ⟨text, htext, -, hblock⟩, hP⟩
        rw [hblock] at hP
        exact ⟨text, htext, hP⟩
      · rintro ⟨text, htext, hzero, hP⟩
        exact ⟨_, ⟨text, htext, not_overruns_of_zero hzero, rfl⟩, hzero, hP⟩

theorem accept_iff (hrow : tree.Row false) (P : Prop) :
    (∃ accept, loadAccept (readSsl tree .acceptExpiredKey) = .ok accept ∧ (accept ↔ P)) ↔
      (tree.field literal .acceptExpiredKey = none ∧ ¬ P) ∨
        ∃ text, tree.text .acceptExpiredKey = some text ∧ (text = enable ↔ P) := by
  rw [text_eq hrow, ← readSsl_eq_none hrow]
  simp only [loadAccept_eq_ok]
  cases readSsl tree .acceptExpiredKey with
  | none => simp
  | some rnode =>
      simp only [reduceCtorEq, false_and, false_or, Option.bind_some]
      constructor
      · rintro ⟨accept, ⟨text, htext, htrue⟩, hP⟩
        exact ⟨text, htext, htrue.symm.trans hP⟩
      · rintro ⟨text, htext, hP⟩
        exact ⟨decide (text = enable), ⟨text, htext, decide_eq_true_iff⟩, decide_eq_true_iff.trans hP⟩

theorem literally_iff (hrow : tree.Row false) (hconf : Configured s) :
    (∃ cfg, loadTree heap tree = .ok (some cfg) ∧ Agrees s cfg) ↔ Literally s tree := by
  have hpassword := password_iff hrow heap fun block =>
    ∀ str, sslString s .password = some str → block = str ++ [0]
  simp only [List.self_eq_append_left] at hpassword
  have haccept := accept_iff hrow (sslString s .acceptExpiredKey = some enable)
  constructor
  · rintro ⟨cfg, hload, hagrees⟩
    obtain ⟨hk, hr, hp, hzero, ha⟩ := loadTree_eq_some.mp hload
    rw [hagrees.keyfile] at hk
    rw [hagrees.rootca] at hr
    exact ⟨(text_eq_iff hrow hconf.1).mp hk, (text_eq_iff hrow hconf.2).mp hr,
      hpassword.mp ⟨_, hp, hzero, hagrees.password⟩, haccept.mp ⟨_, ha, hagrees.acceptExpiredKey⟩⟩
  · intro h
    obtain ⟨block, hload, hzero, hmeant⟩ := hpassword.mpr h.password
    obtain ⟨accept, haccept, hP⟩ := haccept.mpr h.acceptExpiredKey
    refine ⟨⟨block, sslString s .rootca, sslString s .keyfile, accept⟩, ?_, ⟨rfl, rfl, hmeant, hP⟩⟩
    exact loadTree_eq_some.mpr ⟨(text_eq_iff hrow hconf.1).mpr h.keyfile,
      (text_eq_iff hrow hconf.2).mpr h.rootca, hload, hzero, haccept⟩

/-- The file is taken for what it says: under the literal names stands that, or too little if it
is not a configuration. -/
theorem validates_iff_literally (h : listed s = some tree) :
    Validates s ↔ (Configured s → Literally s tree) ∧ (¬ Configured s → Lacking tree) := by
  obtain ⟨-, hrow⟩ := listed_row h
  simp only [Validates, loadconfig_listed h, lacking_iff hrow]
  constructor
  · intro hval
    obtain ⟨hload, hnone⟩ := hval fun _ => 0
    exact ⟨fun hconf => (literally_iff hrow hconf).mp (hload hconf), hnone⟩
  · exact fun ⟨hliterally, hlacking⟩ heap =>
      ⟨fun hconf => (literally_iff hrow hconf).mpr (hliterally hconf), hlacking⟩

/-- Without a whole tree at the front of the tokens the loader reads what is not there. -/
theorem not_validates_of_listed (h : listed s = none) : ¬ Validates s := by
  intro hval
  obtain ⟨e, he⟩ := loadconfig_faults (fun _ => 0) h
  by_cases hconf : Configured s
  · obtain ⟨cfg, hok, -⟩ := (hval fun _ => 0).1 hconf
    cases he.symm.trans hok
  · cases he.symm.trans ((hval fun _ => 0).2 hconf)

end

end AdvVcom.Json
