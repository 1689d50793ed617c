/-
# `AdvVcom.Json.Grammar` — the texts of RFC 8259

A JSON text is given by its derivation: a value with the white space in and around it.
Strings are taken by their raw bodies, as the trees of `jstree.c` take them; control bytes
in them, which the RFC rules out, do no harm here.

From a derivation one gets the text, the tokens it should have, in pre-order and with the
number of members or elements as sizes, and the tree.

**Proved here.**

    the bytes of numbers and literals are no delimiters     (`Prim.mem_wordBytes`)
    there are no more tokens than bytes                     (`Value.length_toks`)
    all tokens are closed                                   (`Value.toks_closed`)
-/
import AdvVcom.Json.Tree
import AdvVcom.Lib.CStr

namespace AdvVcom.Json

open Lib.CStr

/-! ## Terminals -/

def wsBytes : List UInt8 := [ascii ' ', ascii '\t', ascii '\n', ascii '\r']

structure Ws where
  bytes : List UInt8
  ok : ∀ c ∈ bytes, c ∈ wsBytes

structure Body where
  bytes : List UInt8
  ok : Accepted bytes

def digits : List UInt8 := asciis "0123456789"

/-- One digit or more. -/
def IsDigits (s : List UInt8) : Prop := s ≠ [] ∧ ∀ c ∈ s, c ∈ digits

/-- `[ minus ] int [ frac ] [ exp ]` -/
def IsNumber (s : List UInt8) : Prop :=
  ∃ minus int frac exp, s = minus ++ int ++ frac ++ exp ∧
    (minus = [] ∨ minus = asciis "-") ∧
    (IsDigits int ∧ (int.head? = some (ascii '0') → int = asciis "0")) ∧
    (frac = [] ∨ ∃ ds, frac = ascii '.' :: ds ∧ IsDigits ds) ∧
    (exp = [] ∨ ∃ e sign ds, exp = e :: (sign ++ ds) ∧ e ∈ asciis "eE" ∧
      (sign = [] ∨ sign = asciis "+" ∨ sign = asciis "-") ∧ IsDigits ds)

def IsLiteral (s : List UInt8) : Prop := s = asciis "true" ∨ s = asciis "false" ∨ s = asciis "null"

structure Prim where
  bytes : List UInt8
  ok : IsLiteral bytes ∨ IsNumber bytes

/-! ## Values -/

mutual
inductive Value
  | str (b : Body)
  | prim (p : Prim)
  | emptyArr (w : Ws)
  | arr (es : Elements)
  | emptyObj (w : Ws)
  | obj (ms : Members)

/-- The elements of an array, each with the white space around it. -/
inductive Elements
  | one (pre : Ws) (v : Value) (post : Ws)
  | more (pre : Ws) (v : Value) (post : Ws) (es : Elements)

/-- The members of an object; `w₁` and `w₂` stand around the colon. -/
inductive Members
  | one (pre : Ws) (key : Body) (w₁ w₂ : Ws) (v : Value) (post : Ws)
  | more (pre : Ws) (key : Body) (w₁ w₂ : Ws) (v : Value) (post : Ws) (ms : Members)
end

/-- A text: a value with white space around it. -/
structure Document where
  pre : Ws
  value : Value
  post : Ws

def Body.text (b : Body) : List UInt8 := ascii '"' :: b.bytes ++ [ascii '"']

mutual
def Value.text : Value → List UInt8
  | .str b => b.text
  | .prim p => p.bytes
  | .emptyArr w => ascii '[' :: w.bytes ++ [ascii ']']
  | .arr es => ascii '[' :: es.text ++ [ascii ']']
  | .emptyObj w => ascii '{' :: w.bytes ++ [ascii '}']
  | .obj ms => ascii '{' :: ms.text ++ [ascii '}']

def Elements.text : Elements → List UInt8
  | .one pre v post => pre.bytes ++ v.text ++ post.bytes
  | .more pre v post es => pre.bytes ++ v.text ++ post.bytes ++ ascii ',' :: es.text

def Members.text : Members → List UInt8
  | .one pre key w₁ w₂ v post =>
      pre.bytes ++ key.text ++ w₁.bytes ++ ascii ':' :: w₂.bytes ++ v.text ++ post.bytes
  | .more pre key w₁ w₂ v post ms =>
      pre.bytes ++ key.text ++ w₁.bytes ++ ascii ':' :: w₂.bytes ++ v.text ++ post.bytes ++
        ascii ',' :: ms.text
end

def Document.text (d : Document) : List UInt8 := d.pre.bytes ++ d.value.text ++ d.post.bytes

/-! ## Trees -/

def Body.leaf (b : Body) : Tree := .node .string (some b.bytes) .nil .nil

mutual
def Value.tree : Value → Tree
  | .str b => b.leaf
  | .prim p => .node .primitive (some p.bytes) .nil .nil
  | .emptyArr _ => .node .array none .nil .nil
  | .arr es => .node .array none .nil es.tree
  | .emptyObj _ => .node .object none .nil .nil
  | .obj ms => .node .object none .nil ms.tree

def Elements.tree : Elements → Tree
  | .one _ v _ => v.tree.next .nil
  | .more _ v _ es => v.tree.next es.tree

def Members.tree : Members → Tree
  | .one _ key _ _ v _ => key.leaf.link .nil v.tree
  | .more _ key _ _ v _ ms => key.leaf.link ms.tree v.tree
end

/-! ## Tokens -/

def Elements.count : Elements → Nat
  | .one .. => 1
  | .more _ _ _ es => es.count + 1

def Members.count : Members → Nat
  | .one .. => 1
  | .more _ _ _ _ _ _ ms => ms.count + 1

/-- The token of a string that begins at `pos`, with `size` values counted for it. -/
def Body.tok (b : Body) (pos size : Nat) : JsmnTok :=
  ⟨.string, pos + 1, some (pos + 1 + b.bytes.length), size⟩

mutual
/-- The tokens of a value that begins at `pos`. -/
def Value.toks : Value → Nat → List JsmnTok
  | .str b, pos => [b.tok pos 0]
  | .prim p, pos => [⟨.primitive, pos, some (pos + p.bytes.length), 0⟩]
  | .emptyArr w, pos => [⟨.array, pos, some (pos + 2 + w.bytes.length), 0⟩]
  | .arr es, pos => ⟨.array, pos, some (pos + 2 + es.text.length), es.count⟩ :: es.toks (pos + 1)
  | .emptyObj w, pos => [⟨.object, pos, some (pos + 2 + w.bytes.length), 0⟩]
  | .obj ms, pos => ⟨.object, pos, some (pos + 2 + ms.text.length), ms.count⟩ :: ms.toks (pos + 1)

def Elements.toks : Elements → Nat → List JsmnTok
  | .one pre v _, pos => v.toks (pos + pre.bytes.length)
  | .more pre v post es, pos =>
      v.toks (pos + pre.bytes.length) ++
        es.toks (pos + pre.bytes.length + v.text.length + post.bytes.length + 1)

def Members.toks : Members → Nat → List JsmnTok
  | .one pre key w₁ w₂ v _, pos =>
      key.tok (pos + pre.bytes.length) 1 ::
        v.toks (pos + pre.bytes.length + key.text.length + w₁.bytes.length + 1 + w₂.bytes.length)
  | .more pre key w₁ w₂ v post ms, pos =>
      key.tok (pos + pre.bytes.length) 1 ::
        (v.toks (pos + pre.bytes.length + key.text.length + w₁.bytes.length + 1 + w₂.bytes.length) ++
          ms.toks (pos + pre.bytes.length + key.text.length + w₁.bytes.length + 1 +
            w₂.bytes.length + v.text.length + post.bytes.length + 1))
end

def Document.toks (d : Document) : List JsmnTok := d.value.toks d.pre.bytes.length

/-! ## Numbers and literals -/

/-- The bytes that numbers and literals are made of. -/
def wordBytes : List UInt8 := asciis "-+.0123456789eEtrufalsn"

theorem mem_wordBytes_of_digits {s : List UInt8} (h : IsDigits s) : ∀ c ∈ s, c ∈ wordBytes := by
  have hdigits : ∀ c ∈ digits, c ∈ wordBytes := forall_mem_of_all (by decide +kernel)
  exact fun c hc => hdigits c (h.2 c hc)

theorem Prim.mem_wordBytes (p : Prim) : ∀ c ∈ p.bytes, c ∈ wordBytes := by
  rcases p.ok with (h | h | h) | ⟨minus, int, frac, exp, h, hminus, hint, hfrac, hexp⟩
  · rw [h]
    exact forall_mem_of_all (by decide +kernel)
  · rw [h]
    exact forall_mem_of_all (by decide +kernel)
  · rw [h]
    exact forall_mem_of_all (by decide +kernel)
  rw [h]
  simp only [List.forall_mem_append]
  refine ⟨⟨⟨?_, mem_wordBytes_of_digits hint.1⟩, ?_⟩, ?_⟩
  · rcases hminus with rfl | rfl
    · exact fun c hc => nomatch hc
    · exact forall_mem_of_all (by decide +kernel)
  · rcases hfrac with rfl | ⟨ds, rfl, hds⟩
    · exact fun c hc => nomatch hc
    · exact List.forall_mem_cons.mpr ⟨by decide +kernel, mem_wordBytes_of_digits hds⟩
  · rcases hexp with rfl | ⟨e, sign, ds, rfl, he, hsign, hds⟩
    · exact fun c hc => nomatch hc
    have hes : ∀ c ∈ asciis "eE", c ∈ wordBytes := forall_mem_of_all (by decide +kernel)
    refine List.forall_mem_cons.mpr ⟨hes e he, List.forall_mem_append.mpr ⟨?_, mem_wordBytes_of_digits hds⟩⟩
    rcases hsign with rfl | rfl | rfl
    · exact fun c hc => nomatch hc
    · exact forall_mem_of_all (by decide +kernel)
    · exact forall_mem_of_all (by decide +kernel)

theorem Prim.ne_nil (p : Prim) : p.bytes ≠ [] := by
  rcases p.ok with (h | h | h) | ⟨minus, int, frac, exp, h, -, hint, -, -⟩
  · rw [h]
    decide
  · rw [h]
    decide
  · rw [h]
    decide
  · rw [h]
    simp [hint.1.1]

theorem mem_primitiveEnds_of_ws : ∀ c ∈ wsBytes, c ∈ primitiveEnds :=
  forall_mem_of_all (by decide)

/-! ## The tokens -/

mutual
theorem Value.length_toks : ∀ (v : Value) (pos : Nat), (v.toks pos).length ≤ v.text.length
  | .str b, pos => by simp [Value.toks, Value.text, Body.text]
  | .prim p, pos => by
      have hpos : 0 < p.bytes.length := List.length_pos_iff.mpr p.ne_nil
      exact hpos
  | .emptyArr w, pos => by simp [Value.toks, Value.text]
  | .arr es, pos => by
      have hes := es.length_toks (pos + 1)
      simp only [Value.toks, Value.text, List.length_cons, List.length_append, List.cons_append]
      omega
  | .emptyObj w, pos => by simp [Value.toks, Value.text]
  | .obj ms, pos => by
      have hms := ms.length_toks (pos + 1)
      simp only [Value.toks, Value.text, List.length_cons, List.length_append, List.cons_append]
      omega

theorem Elements.length_toks : ∀ (es : Elements) (pos : Nat), (es.toks pos).length ≤ es.text.length
  | .one pre v post, pos => by
      have hv := v.length_toks (pos + pre.bytes.length)
      simp only [Elements.toks, Elements.text, List.length_append]
      omega
  | .more pre v post es, pos => by
      have hv := v.length_toks (pos + pre.bytes.length)
      have hes := es.length_toks (pos + pre.bytes.length + v.text.length + post.bytes.length + 1)
      simp only [Elements.toks, Elements.text, List.length_append, List.length_cons]
      omega

theorem Members.length_toks : ∀ (ms : Members) (pos : Nat), (ms.toks pos).length ≤ ms.text.length
  | .one pre key w₁ w₂ v post, pos => by
      have hv := v.length_toks
        (pos + pre.bytes.length + key.text.length + w₁.bytes.length + 1 + w₂.bytes.length)
      simp only [Members.toks, Members.text, List.length_append, List.length_cons]
      omega
  | .more pre key w₁ w₂ v post ms, pos => by
      have hv := v.length_toks
        (pos + pre.bytes.length + key.text.length + w₁.bytes.length + 1 + w₂.bytes.length)
      have hms := ms.length_toks (pos + pre.bytes.length + key.text.length + w₁.bytes.length + 1 +
        w₂.bytes.length + v.text.length + post.bytes.length + 1)
      simp only [Members.toks, Members.text, List.length_append, List.length_cons]
      omega
end

/-- No token waits for its end. -/
def Closed (ts : List JsmnTok) : Prop := ∀ t ∈ ts, t.isOpen = false

mutual
theorem Value.toks_closed : ∀ (v : Value) (pos : Nat), Closed (v.toks pos)
  | .str _, _ => List.forall_mem_singleton.mpr rfl
  | .prim _, _ => List.forall_mem_singleton.mpr rfl
  | .emptyArr _, _ => List.forall_mem_singleton.mpr rfl
  | .arr es, pos => List.forall_mem_cons.mpr ⟨rfl, es.toks_closed (pos + 1)⟩
  | .emptyObj _, _ => List.forall_mem_singleton.mpr rfl
  | .obj ms, pos => List.forall_mem_cons.mpr ⟨rfl, ms.toks_closed (pos + 1)⟩

theorem Elements.toks_closed : ∀ (es : Elements) (pos : Nat), Closed (es.toks pos)
  | .one _ v _, _ => v.toks_closed _
  | .more _ v _ es, _ => List.forall_mem_append.mpr ⟨v.toks_closed _, es.toks_closed _⟩

theorem Members.toks_closed : ∀ (ms : Members) (pos : Nat), Closed (ms.toks pos)
  | .one _ _ _ _ v _, _ => List.forall_mem_cons.mpr ⟨rfl, v.toks_closed _⟩
  | .more _ _ _ _ v _ ms, _ =>
      List.forall_mem_cons.mpr ⟨rfl, List.forall_mem_append.mpr ⟨v.toks_closed _, ms.toks_closed _⟩⟩
end

end AdvVcom.Json
