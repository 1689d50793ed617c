/-
# `AdvVcom.Json.Validate` — the files that are taken for what they say

The loader looks for the literal names, takes the texts as they are written and decodes none but
the password.  So it depends on how a file is written whether it is taken for what it says:
which tokens it has, what its names are and where there are escapes.

**Proved here.**

    there has to be a whole tree of tokens; a configuration is
    then loaded if it is written straight, and only then if the
    names are definite                                       (`loadconfig_validates_iff`)
    in a document, names without escapes are definite        (`validates_document_iff`)
    and plain strings straight                               (`validates_plain`)
-/
import AdvVcom.Json.Sslcfg

namespace AdvVcom.Json

open Lib Lib.CStr Lib.Preorder

/-! ## How a file has to be written -/

/-- The string in a field of `ssl`, as it is written. -/
def Tree.bodyAt (kind : List UInt8 → JsmnType → Option (List UInt8) → Bool) (tree : Tree)
    (f : Field) : Option (List UInt8) :=
  (tree.field kind f).bind Tree.body

/-- What stands under the text of a name is what goes by that name.  It does where every key is
a string and no name is there twice. -/
def Tree.Definite (tree : Tree) : Prop :=
  ∀ f v, tree.field literal f = some v → tree.field named f = some v

/-- The decoder knows all units of the text, and one of them is a zero. -/
def Terminates (text : List UInt8) : Prop :=
  (known (scanned text)).flatMap StrUnit.text = scanned text ∧ ∃ u ∈ known (scanned text), u.Null

/-- A configuration that is written in the way the loader reads it. -/
structure Straight (tree : Tree) : Prop where
  /-- The names that are needed are literal, and their strings have no escapes. -/
  needed : ∀ f, f = .keyfile ∨ f = .rootca → ∃ body, tree.bodyAt literal f = some body ∧
    tree.bodyAt named f = some body ∧ ascii '\\' ∉ body
  /-- There is no password or an empty one, or one that is decoded, or something else that is
  decoded up to a zero. -/
  password : (tree.field literal .password = none ∧
      ∀ body, tree.bodyAt named .password = some body → body = []) ∨
    (∃ body, tree.bodyAt literal .password = some body ∧ tree.bodyAt named .password = some body ∧
      slash ∉ units body ∧ Unpaired (units body) ∧ (body.length : Int) < Snprintf.INT_MAX) ∨
    (tree.bodyAt named .password = none ∧ ∃ text, tree.text .password = some text ∧ Terminates text)
  /-- The word is not meant, or written as it is, or something else with another text. -/
  acceptExpiredKey : (tree.field literal .acceptExpiredKey = none ∧
      ∀ body, tree.bodyAt named .acceptExpiredKey = some body → value (units body) ≠ enable) ∨
    (∃ body, tree.bodyAt literal .acceptExpiredKey = some body ∧
      tree.bodyAt named .acceptExpiredKey = some body ∧
      (value (units body) = enable → ascii '\\' ∉ body)) ∨
    (tree.bodyAt named .acceptExpiredKey = none ∧
      ∃ text, tree.text .acceptExpiredKey = some text ∧ text ≠ enable)

section
variable {s body text : List UInt8} {tree : Tree} {f : Field}
  {kind : List UInt8 → JsmnType → Option (List UInt8) → Bool}

theorem Tree.body_eq_some {v : Tree} (h : v.body = some body) :
    ∃ l r, v = .node .string (some body) l r := by
  cases v with
  | nil => cases h
  | node type data l r =>
      cases type with
      | string =>
          cases h
          exact ⟨l, r, rfl⟩
      | _ => cases h

theorem Tree.Row.field (hrow : tree.Row false) {v : Tree} (h : tree.field kind f = some v) :
    v.Row false := by
  obtain ⟨ssl, hssl, hv⟩ := Option.bind_eq_some_iff.mp h
  exact ((hrow.member hssl).2.member hv).2

theorem Tree.Row.accepted (hrow : tree.Row false) (h : tree.bodyAt kind f = some body) :
    Accepted body := by
  obtain ⟨v, hv, hbody⟩ := Option.bind_eq_some_iff.mp h
  obtain ⟨l, r, rfl⟩ := Tree.body_eq_some hbody
  obtain ⟨body', heq, haccepted⟩ := (hrow.field hv).2.1.2 rfl
  cases heq
  exact haccepted

/-- The loader gets a string as it is written. -/
theorem Tree.Row.text_bodyAt (hrow : tree.Row false) (h : tree.bodyAt literal f = some body) :
    tree.text f = some body := by
  have hcstr : upto 0 body = body := Body.cstr_bytes ⟨body, hrow.accepted h⟩
  obtain ⟨v, hv, hbody⟩ := Option.bind_eq_some_iff.mp h
  obtain ⟨l, r, rfl⟩ := Tree.body_eq_some hbody
  rw [Tree.text, hv, Option.map_some, Option.bind_some]
  exact congrArg some hcstr

theorem Configured.sslString_eq (hconf : Configured s) (h : listed s = some tree) (f : Field) :
    sslString s f = (tree.bodyAt named f).map fun body => value (units body) := by
  have haccepted : (tokenize s).2 = none := by
    by_contra herror
    have hkeyfile := hconf.1
    rw [sslString, document, if_neg herror] at hkeyfile
    cases hkeyfile
  rw [sslString, document, if_pos haccepted, h, Option.bind_some, Tree.bodyAt, Option.map_bind]
  rfl

theorem zero_mem_decodedBytes_iff : 0 ∈ decodedBytes text ↔ Terminates text := by
  unfold decodedBytes Terminates
  split
  · rename_i hall
    rw [and_iff_right hall, unitwise, List.mem_flatMap]
    refine exists_congr fun u => and_congr_right fun hu => ?_
    exact (known_known _ hu).zero_mem_iff
  · rename_i hpart
    exact iff_of_false List.not_mem_nil fun h => hpart h.1

/-- Under the text of its name a field is no string, or the one that goes by that name. -/
theorem Tree.Definite.found (hdef : tree.Definite) (hrow : tree.Row false)
    (htext : tree.text f = some text) :
    tree.bodyAt named f = none ∨ tree.bodyAt literal f = some text ∧ tree.bodyAt named f = some text := by
  obtain ⟨_, hmap, -⟩ := Option.bind_eq_some_iff.mp htext
  obtain ⟨v, hv, -⟩ := Option.map_eq_some_iff.mp hmap
  have hnamed : tree.bodyAt named f = v.body := by
    rw [Tree.bodyAt, hdef f v hv, Option.bind_some]
  have hliteral : tree.bodyAt literal f = v.body := by
    rw [Tree.bodyAt, hv, Option.bind_some]
  cases hbody : v.body with
  | none => exact .inl (hnamed.trans hbody)
  | some body =>
      cases (hrow.text_bodyAt (hliteral.trans hbody)).symm.trans htext
      exact .inr ⟨hliteral.trans hbody, hnamed.trans hbody⟩

section
variable (hrow : tree.Row false)
  (hmeant : ∀ f, sslString s f = (tree.bodyAt named f).map fun body => value (units body))
include hrow hmeant

theorem Straight.literally (h : Straight tree) : Literally s tree := by
  have hneeded : ∀ f, f = .keyfile ∨ f = .rootca → tree.text f = sslString s f := by
    intro f hf
    obtain ⟨body, hliteral, hnamed, hplain⟩ := h.needed f hf
    rw [hrow.text_bodyAt hliteral, hmeant, hnamed, Option.map_some, value_plain hplain]
  refine ⟨hneeded _ (.inl rfl), hneeded _ (.inr rfl), ?_, ?_⟩
  · rcases h.password with ⟨hnone, hempty⟩ | ⟨body, hliteral, hnamed, hunits⟩ |
      ⟨hnamed, text, htext, hends⟩
    · refine .inl ⟨hnone, fun str hstr => ?_⟩
      rw [hmeant, Option.map_eq_some_iff] at hstr
      obtain ⟨body, hbody, rfl⟩ := hstr
      rw [hempty body hbody]
      rfl
    · have hbytes := (decodedBytes_eq_value_iff (hrow.accepted hliteral)).mpr hunits
      refine .inr ⟨body, hrow.text_bodyAt hliteral, ?_, fun str hstr => ?_⟩
      · rw [hbytes]
        exact List.mem_append_right _ (List.mem_singleton_self 0)
      · rw [hmeant, hnamed, Option.map_some, Option.some.injEq] at hstr
        rw [hbytes, hstr]
    · refine .inr ⟨text, htext, zero_mem_decodedBytes_iff.mpr hends, fun str hstr => ?_⟩
      rw [hmeant, hnamed] at hstr
      cases hstr
  · rcases h.acceptExpiredKey with ⟨hnone, hother⟩ | ⟨body, hliteral, hnamed, hword⟩ |
      ⟨hnamed, text, htext, hother⟩
    · refine .inl ⟨hnone, fun hstr => ?_⟩
      rw [hmeant, Option.map_eq_some_iff] at hstr
      obtain ⟨body, hbody, hvalue⟩ := hstr
      exact hother body hbody hvalue
    · refine .inr ⟨body, hrow.text_bodyAt hliteral, ?_⟩
      rw [hmeant, hnamed, Option.map_some, Option.some.injEq]
      constructor
      · rintro rfl
        exact value_plain (by decide)
      · intro hvalue
        rwa [value_plain (hword hvalue)] at hvalue
    · refine .inr ⟨text, htext, iff_of_false hother fun hstr => ?_⟩
      rw [hmeant, hnamed] at hstr
      cases hstr

theorem Literally.straight (h : Literally s tree) (hconf : Configured s) (hdef : tree.Definite) :
    Straight tree := by
  have hneeded : ∀ f, (sslString s f).isSome → tree.text f = sslString s f →
      ∃ body, tree.bodyAt literal f = some body ∧ tree.bodyAt named f = some body ∧
        ascii '\\' ∉ body := by
    intro f hsome htext
    rw [hmeant] at hsome htext
    obtain ⟨body, hbody⟩ := Option.isSome_iff_exists.mp (Option.isSome_map .. ▸ hsome)
    rw [hbody, Option.map_some] at htext
    rcases hdef.found hrow htext with hnone | ⟨hliteral, hnamed⟩
    · cases hnone.symm.trans hbody
    · have hself := Option.some.inj (hnamed.symm.trans hbody)
      rw [hself] at hliteral
      exact ⟨body, hliteral, hbody, (value_eq_self_iff (hrow.accepted hbody)).mp hself⟩
  refine ⟨?_, ?_, ?_⟩
  · rintro f (rfl | rfl)
    · exact hneeded _ hconf.1 h.keyfile
    · exact hneeded _ hconf.2 h.rootca
  · rcases h.password with ⟨hnone, hempty⟩ | ⟨text, htext, hzero, hstr⟩
    · refine .inl ⟨hnone, fun body hbody => ?_⟩
      exact (value_eq_nil_iff (hrow.accepted hbody)).mp (hempty _ (by rw [hmeant, hbody]; rfl))
    rcases hdef.found hrow htext with hnamed | ⟨hliteral, hnamed⟩
    · exact .inr (.inr ⟨hnamed, text, htext, zero_mem_decodedBytes_iff.mp hzero⟩)
    · have hbytes := hstr _ (by rw [hmeant, hnamed]; rfl)
      exact .inr (.inl ⟨text, hliteral, hnamed,
        (decodedBytes_eq_value_iff (hrow.accepted hnamed)).mp hbytes⟩)
  · rcases h.acceptExpiredKey with ⟨hnone, hother⟩ | ⟨text, htext, hword⟩
    · refine .inl ⟨hnone, fun body hbody hvalue => hother ?_⟩
      rw [hmeant, hbody, Option.map_some, hvalue]
    rw [hmeant] at hword
    rcases hdef.found hrow htext with hnamed | ⟨hliteral, hnamed⟩
    · refine .inr (.inr ⟨hnamed, text, htext, fun heq => ?_⟩)
      have hnone := hword.mp heq
      rw [hnamed] at hnone
      cases hnone
    · rw [hnamed, Option.map_some, Option.some.injEq] at hword
      refine .inr (.inl ⟨text, hliteral, hnamed, fun hvalue => ?_⟩)
      rw [hword.mpr hvalue]
      decide

end

end

/-- The tokens have to begin with a whole tree.  Then a file that is no configuration is refused
exactly if a name that is needed is lacking, and a configuration is loaded for what it says if it
is written straight; and only then, if the names are definite. -/
theorem loadconfig_validates_iff (s : List UInt8) :
    (Validates s → (skip JsmnTok.need 1 (tokenize s).1.tokens).isSome) ∧
    ((skip JsmnTok.need 1 (tokenize s).1.tokens).isSome → ∃ tree, listed s = some tree ∧
      (¬ Configured s → (Validates s ↔ Lacking tree)) ∧
      (Configured s → (Straight tree → Validates s) ∧
        (tree.Definite → Validates s → Straight tree))) := by
  rw [← listed_isSome_iff]
  constructor
  · intro hval
    by_contra hnone
    exact not_validates_of_listed (Option.not_isSome_iff_eq_none.mp hnone) hval
  · intro hsome
    obtain ⟨tree, htree⟩ := Option.isSome_iff_exists.mp hsome
    obtain ⟨-, hrow⟩ := listed_row htree
    have hiff := validates_iff_literally htree
    refine ⟨tree, htree, fun hconf => ?_, fun hconf => ⟨fun hstraight => ?_, fun hdef hval => ?_⟩⟩
    · rw [hiff]
      exact ⟨fun h => h.2 hconf, fun h => ⟨fun hc => absurd hc hconf, fun _ => h⟩⟩
    · have hmeant := hconf.sslString_eq htree
      exact hiff.mpr ⟨fun _ => hstraight.literally hrow hmeant, fun hc => absurd hconf hc⟩
    · have hmeant := hconf.sslString_eq htree
      exact ((hiff.mp hval).1 hconf).straight hrow hmeant hconf hdef

instance (s : List UInt8) : Decidable (Configured s) :=
  inferInstanceAs (Decidable ((sslString s .keyfile).isSome ∧ (sslString s .rootca).isSome))

/-- The last brace is missing. -/
def unclosed : List UInt8 := asciis "\x7b\"ssl\":\x7b\"keyfile\":\"k\",\"rootca\":\"r\"\x7d"

/-- The key file is a number. -/
def numbered : List UInt8 := asciis "\x7b\"ssl\":\x7b\"keyfile\":1,\"rootca\":\"r\"\x7d\x7d"

/-- There is an escape in the name of the key file. -/
def escapedPath : List UInt8 :=
  asciis "\x7b\"ssl\":\x7b\"keyfile\":\"a\\/k\",\"rootca\":\"r\"\x7d\x7d"

/-- A text that is not closed is loaded, and so is a number; a path is taken with its escapes,
and an empty file makes the loader read a node that was never set. -/
theorem not_validates :
    ¬ Validates unclosed ∧ ¬ Validates numbered ∧ ¬ Validates escapedPath ∧ ¬ Validates [] := by
  refine ⟨fun h => ?_, fun h => ?_, fun h => ?_, fun h => ?_⟩
  · have hload : loadconfig (fun _ => 0) unclosed =
        .ok (some ⟨[0], some (asciis "r"), some (asciis "k"), false⟩) := by decide +kernel
    have hrefused := (h fun _ => 0).2 (by decide +kernel)
    exact absurd (hload.symm.trans hrefused) nofun
  · have hload : loadconfig (fun _ => 0) numbered =
        .ok (some ⟨[0], some (asciis "r"), some (asciis "1"), false⟩) := by decide +kernel
    have hrefused := (h fun _ => 0).2 (by decide +kernel)
    exact absurd (hload.symm.trans hrefused) nofun
  · have hload : loadconfig (fun _ => 0) escapedPath =
        .ok (some ⟨[0], some (asciis "r"), some (asciis "a\\/k"), false⟩) := by decide +kernel
    obtain ⟨cfg, hcfg, hagrees⟩ := (h fun _ => 0).1 (by decide +kernel)
    cases hload.symm.trans hcfg
    exact absurd hagrees.keyfile (by decide +kernel)
  · have hload : loadconfig (fun _ => 0) [] = .error (.tree .unset) := by decide +kernel
    have hrefused := (h fun _ => 0).2 (by decide +kernel)
    exact absurd (hload.symm.trans hrefused) nofun

/-! ## Plain documents -/

def Members.find (name : List UInt8) : Members → Option Value
  | .one _ key _ _ v _ => if value (units key.bytes) = name then some v else none
  | .more _ key _ _ v _ ms => if value (units key.bytes) = name then some v else ms.find name

/-- The member of an object. -/
def Value.member (name : List UInt8) : Value → Option Value
  | .obj ms => ms.find name
  | _ => none

def Members.keys : Members → List Body
  | .one _ key _ _ _ _ => [key]
  | .more _ key _ _ _ _ ms => key :: ms.keys

def Value.keys : Value → List Body
  | .obj ms => ms.keys
  | _ => []

/-- The names are written without escapes. -/
def Value.PlainNames (v : Value) : Prop := ∀ key ∈ v.keys, ascii '\\' ∉ key.bytes

/-- The field of `ssl`. -/
def Value.field (v : Value) (f : Field) : Option Value :=
  (v.member (asciis "ssl")).bind fun ssl => ssl.member f.name

/-- A string the loader gets right. -/
def PlainString (f : Field) (v : Value) : Prop :=
  ∃ b : Body, v = .str b ∧
    if f = .password then
      slash ∉ units b.bytes ∧ Unpaired (units b.bytes) ∧ (b.bytes.length : Int) < Snprintf.INT_MAX
    else ascii '\\' ∉ b.bytes

/-- No escapes but in the password, no escapes in it that the decoder does not know, and the
fields of `ssl` are strings if they are there. -/
structure Plain (v : Value) : Prop where
  names : v.PlainNames
  sslNames : ∀ ssl, v.member (asciis "ssl") = some ssl → ssl.PlainNames
  strings : ∀ f field, v.field f = some field → PlainString f field

/-- The key goes by its name, and by no other. -/
def Named (kind : List UInt8 → JsmnType → Option (List UInt8) → Bool) (key : Body) : Prop :=
  ∀ name, kind name .string (some key.bytes) = decide (value (units key.bytes) = name)

theorem named_body (key : Body) : Named named key := by
  intro name
  simp [named]

theorem literal_plain {key : Body} (h : ascii '\\' ∉ key.bytes) : Named literal key := by
  intro name
  have hdata : upto 0 key.bytes = key.bytes := key.cstr_bytes
  simp [literal, hdata, value_plain h]

section
variable {kind : List UInt8 → JsmnType → Option (List UInt8) → Bool} {v : Value}

theorem Members.lookup_tree (name : List UInt8) : ∀ ms : Members,
    (∀ key ∈ ms.keys, Named kind key) → ms.tree.lookup (kind name) = (ms.find name).map Value.tree
  | .one _ key _ _ v _, h => by
      have hkey := h key (List.mem_singleton.mpr rfl) name
      simp only [Members.tree, Body.leaf, Tree.link, Tree.lookup, hkey, decide_eq_true_eq, Members.find]
      split <;> rfl
  | .more _ key _ _ v _ ms, h => by
      have hkey := h key List.mem_cons_self name
      have hms := ms.lookup_tree name fun key hmem => h key (List.mem_cons_of_mem _ hmem)
      simp only [Members.tree, Body.leaf, Tree.link, Tree.lookup, hkey, decide_eq_true_eq, hms,
        Members.find]
      split <;> rfl

theorem Value.member_tree (h : ∀ key ∈ v.keys, Named kind key) (name : List UInt8) :
    v.tree.member (kind name) = (v.member name).map Value.tree := by
  cases v with
  | obj ms => exact ms.lookup_tree name h
  | _ => rfl

theorem Value.field_tree (h : ∀ key ∈ v.keys, Named kind key)
    (hssl : ∀ ssl, v.member (asciis "ssl") = some ssl → ∀ key ∈ ssl.keys, Named kind key) (f : Field) :
    v.tree.field kind f = (v.field f).map Value.tree := by
  rw [Tree.field, Value.field, Value.member_tree h]
  cases hmember : v.member (asciis "ssl") with
  | none => rfl
  | some ssl => exact Value.member_tree (hssl ssl hmember) f.name

end

section
variable {d : Document}

theorem listed_text (d : Document) : listed d.text = some d.value.tree :=
  treeOf_eq_ok.mp ⟨_, (treeOf_text d).2⟩

theorem sslString_text (d : Document) (f : Field) :
    sslString d.text f = (d.value.tree.bodyAt named f).map fun body => value (units body) := by
  rw [sslString, document, if_pos (treeOf_text d).1, listed_text, Option.bind_some, Tree.bodyAt,
    Option.map_bind]
  rfl

theorem field_named (v : Value) (f : Field) : v.tree.field named f = (v.field f).map Value.tree :=
  Value.field_tree (fun key _ => named_body key) (fun _ _ key _ => named_body key) f

theorem field_literal {v : Value} (h : v.PlainNames)
    (hssl : ∀ ssl, v.member (asciis "ssl") = some ssl → ssl.PlainNames) (f : Field) :
    v.tree.field literal f = (v.field f).map Value.tree :=
  Value.field_tree (fun key hkey => literal_plain (h key hkey))
    (fun ssl hmember key hkey => literal_plain (hssl ssl hmember key hkey)) f

/-- A document with plain names is taken for what it says exactly if it is written straight, or
lacks a name if it is no configuration. -/
theorem validates_document_iff (h : d.value.PlainNames)
    (hssl : ∀ ssl, d.value.member (asciis "ssl") = some ssl → ssl.PlainNames) :
    Validates d.text ↔ (Configured d.text → Straight d.value.tree) ∧
      (¬ Configured d.text → Lacking d.value.tree) := by
  obtain ⟨-, hrow⟩ := listed_row (listed_text d)
  have hdef : d.value.tree.Definite := by
    intro f v hv
    rw [field_named]
    rwa [field_literal h hssl] at hv
  rw [validates_iff_literally (listed_text d)]
  refine and_congr_left fun _ => forall_congr' fun hconf => ?_
  exact ⟨fun hlit => hlit.straight hrow (sslString_text d) hconf hdef,
    fun hstraight => hstraight.literally hrow (sslString_text d)⟩

/-- A field of a plain document is not there, or a string. -/
theorem Plain.field (h : Plain d.value) (f : Field) :
    (d.value.tree.field literal f = none ∧ d.value.tree.bodyAt named f = none) ∨
      ∃ b : Body, PlainString f (.str b) ∧ d.value.tree.field literal f = some b.leaf ∧
        d.value.tree.bodyAt literal f = some b.bytes ∧ d.value.tree.bodyAt named f = some b.bytes := by
  rw [Tree.bodyAt, Tree.bodyAt, field_literal h.names h.sslNames, field_named]
  cases hfield : d.value.field f with
  | none => exact .inl ⟨rfl, rfl⟩
  | some v =>
      have hplain := h.strings f v hfield
      obtain ⟨b, rfl, -⟩ := id hplain
      exact .inr ⟨b, hplain, rfl, rfl, rfl⟩

theorem Plain.straight (h : Plain d.value) (hconf : Configured d.text) : Straight d.value.tree := by
  have hneeded : ∀ f, f ≠ .password → (sslString d.text f).isSome → ∃ body,
      d.value.tree.bodyAt literal f = some body ∧ d.value.tree.bodyAt named f = some body ∧
        ascii '\\' ∉ body := by
    intro f hf hsome
    rw [sslString_text, Option.isSome_map] at hsome
    rcases h.field f with ⟨-, hnone⟩ | ⟨b, ⟨_, hb, hplain⟩, -, hliteral, hnamed⟩
    · rw [hnone] at hsome
      cases hsome
    · cases hb
      rw [if_neg hf] at hplain
      exact ⟨b.bytes, hliteral, hnamed, hplain⟩
  refine ⟨?_, ?_, ?_⟩
  · rintro f (rfl | rfl)
    · exact hneeded _ (by decide) hconf.1
    · exact hneeded _ (by decide) hconf.2
  · rcases h.field .password with ⟨hnone, hnamed⟩ | ⟨b, ⟨_, hb, hplain⟩, -, hliteral, hnamed⟩
    · refine .inl ⟨hnone, fun body hbody => ?_⟩
      cases hnamed.symm.trans hbody
    · cases hb
      rw [if_pos rfl] at hplain
      exact .inr (.inl ⟨b.bytes, hliteral, hnamed, hplain⟩)
  · rcases h.field .acceptExpiredKey with ⟨hnone, hnamed⟩ | ⟨b, ⟨_, hb, hplain⟩, -, hliteral, hnamed⟩
    · refine .inl ⟨hnone, fun body hbody => ?_⟩
      cases hnamed.symm.trans hbody
    · cases hb
      rw [if_neg (by decide)] at hplain
      exact .inr (.inl ⟨b.bytes, hliteral, hnamed, fun _ => hplain⟩)

theorem Plain.lacking (h : Plain d.value) (hconf : ¬ Configured d.text) : Lacking d.value.tree := by
  intro v hv
  rcases h.field .keyfile with ⟨hliteral, -⟩ | ⟨k, -, hliteral, -, hkeyfile⟩
  · cases hliteral.symm.trans hv
  cases hliteral.symm.trans hv
  refine ⟨Tree.noConfusion, ?_⟩
  rcases h.field .rootca with ⟨hnone, -⟩ | ⟨r, -, -, -, hrootca⟩
  · exact hnone
  · refine absurd ⟨?_, ?_⟩ hconf
    · rw [sslString_text, hkeyfile]
      rfl
    · rw [sslString_text, hrootca]
      rfl

/-- A plain document is loaded, or refused, for what it says. -/
theorem validates_plain (h : Plain d.value) : Validates d.text :=
  (validates_document_iff h.names h.sslNames).mpr ⟨h.straight, h.lacking⟩

end

end AdvVcom.Json
