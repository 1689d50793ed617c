/-
# `AdvVcom.Json.Listing` — the tokens of a JSON text

On the texts of the grammar `jsmn_parse` makes the tokens the grammar says.  Each lemma
takes the parser over a part of the text, from one state to another with the same result.

What a value changes: its tokens come behind those there are, it is counted for the token
`toksuper`, and behind a container `toksuper` is the innermost one still open.  In a
container this is the container itself, and behind a key it is the key, until a comma.

**Proved here.**

    over a value                                            (`value_runs`)
    over what stands in a container, to its end             (`elements_run`, `members_run`)
    the tokens of a text                                    (`tokenize_text`)
-/
import AdvVcom.Json.Grammar

namespace AdvVcom.Json

open Lib.CStr (ascii)

/-! ## Rows of tokens -/

section
variable {P : JsmnTok → Bool} {T C : List JsmnTok} {t : JsmnTok}

theorem lastIdx_none (h : ∀ t ∈ T, P t = false) : lastIdx P T = none := by
  induction T with
  | nil => rfl
  | cons t T ih =>
      obtain ⟨ht, hT⟩ := List.forall_mem_cons.mp h
      simp [lastIdx, ih hT, ht]

theorem lastIdx_last (ht : P t = true) (hC : ∀ c ∈ C, P c = false) :
    lastIdx P (T ++ t :: C) = some T.length := by
  induction T with
  | nil => simp [lastIdx, lastIdx_none hC, ht]
  | cons u T ih => simp [lastIdx, ih]

theorem modify_append {f : JsmnTok → JsmnTok} {i : Nat} (h : i < T.length) (C : List JsmnTok) :
    (T ++ C).modify i f = T.modify i f ++ C := by
  induction T generalizing i with
  | nil => cases h
  | cons u T ih =>
      cases i with
      | zero => rfl
      | succ i => exact congrArg (u :: ·) (ih (Nat.lt_of_succ_lt_succ h))

theorem modify_last {f : JsmnTok → JsmnTok} : (T ++ t :: C).modify T.length f = T ++ f t :: C := by
  induction T with
  | nil => rfl
  | cons u T ih => exact congrArg (u :: ·) ih

theorem length_countIn (super : Option Nat) : (countIn super T).length = T.length := by
  cases super with
  | none => rfl
  | some i => exact List.length_modify _ T i

theorem countIn_append {super : Option Nat} (h : ∀ i ∈ super, i < T.length) (C : List JsmnTok) :
    countIn super (T ++ C) = countIn super T ++ C := by
  cases super with
  | none => rfl
  | some i => exact modify_append (h i rfl) C

theorem countIn_last : countIn (some T.length) (T ++ t :: C) =
    T ++ { t with size := t.size + 1 } :: C :=
  modify_last

/-- Counting opens and closes nothing. -/
theorem lastIdx_countIn (super : Option Nat) :
    lastIdx JsmnTok.isOpen (countIn super T) = lastIdx JsmnTok.isOpen T := by
  cases super with
  | none => rfl
  | some i =>
      induction T generalizing i with
      | nil => cases i <;> rfl
      | cons u T ih =>
          cases i with
          | zero => rfl
          | succ i =>
              have hT := ih i
              simp only [countIn] at hT
              simp only [countIn, List.modify_succ_cons, lastIdx, hT]

end

/-! ## Over single bytes -/

section
variable {num : Nat} {js : List UInt8} {pos : Nat} {T : List JsmnTok} {super : Option Nat}
  {tail : List UInt8}

theorem drop_behind {s : List UInt8} (h : js.drop pos = s ++ tail) :
    js.drop (pos + s.length) = tail := by
  rw [← List.drop_drop, h, List.drop_left]

theorem drop_next {c : UInt8} (h : js.drop pos = c :: tail) : js.drop (pos + 1) = tail :=
  drop_behind (s := [c]) h

/-- A byte of the text is taken by an iteration of the loop. -/
theorem byte_runs {c : UInt8} {p' : Jsmn} (h : js.drop pos = c :: tail) (hzero : c ≠ 0)
    (hstep : jsmnStep num js c ⟨pos, T, super⟩ = .ok p') :
    jsmnParse num js ⟨pos, T, super⟩ = jsmnParse num js { p' with pos := p'.pos + 1 } := by
  have hbyte : js[pos]? = some c := by
    rw [← List.head?_drop, h]
    rfl
  exact jsmnParse_step hbyte hzero hstep

theorem ws_runs {w : List UInt8} (hw : ∀ c ∈ w, c ∈ wsBytes) (h : js.drop pos = w ++ tail) :
    jsmnParse num js ⟨pos, T, super⟩ = jsmnParse num js ⟨pos + w.length, T, super⟩ := by
  induction w generalizing pos with
  | nil => rfl
  | cons c w ih =>
      obtain ⟨hc, hw⟩ := List.forall_mem_cons.mp hw
      have hstep : jsmnStep num js c ⟨pos, T, super⟩ = .ok ⟨pos, T, super⟩ := by
        simp only [wsBytes, List.mem_cons, List.not_mem_nil, or_false] at hc
        rcases hc with rfl | rfl | rfl | rfl <;> rfl
      have hzero : c ≠ 0 := by
        rintro rfl
        exact absurd hc (by decide)
      refine (byte_runs h hzero hstep).trans ((ih hw (drop_next h)).trans ?_)
      rw [List.length_cons, Nat.add_assoc, Nat.add_comm 1]

theorem open_runs {c : UInt8} {type : JsmnType} (h : js.drop pos = c :: tail)
    (hc : c = ascii '{' ∧ type = .object ∨ c = ascii '[' ∧ type = .array)
    (hroom : T.length < num) :
    jsmnParse num js ⟨pos, T, super⟩ = jsmnParse num js
      ⟨pos + 1, countIn super T ++ [⟨type, pos, none, 0⟩], some T.length⟩ := by
  have hopen : jsmnOpen num type ⟨pos, T, super⟩ =
      .ok ⟨pos, countIn super T ++ [⟨type, pos, none, 0⟩], some T.length⟩ := by
    rw [jsmnOpen, jsmnAlloc, if_neg (by simp only [length_countIn]; omega)]
    rfl
  rcases hc with ⟨rfl, rfl⟩ | ⟨rfl, rfl⟩
  · exact byte_runs h (by decide) hopen
  · exact byte_runs h (by decide) hopen

theorem close_runs {c : UInt8} {type : JsmnType} {s k : Nat} {C : List JsmnTok}
    (h : js.drop pos = c :: tail) (hc : c = ascii '}' ∧ type = .object ∨ c = ascii ']' ∧ type = .array)
    (hC : Closed C) :
    jsmnParse num js ⟨pos, T ++ ⟨type, s, none, k⟩ :: C, super⟩ = jsmnParse num js
      ⟨pos + 1, T ++ ⟨type, s, some (pos + 1), k⟩ :: C, lastIdx JsmnTok.isOpen T⟩ := by
  have hclose : jsmnClose type ⟨pos, T ++ ⟨type, s, none, k⟩ :: C, super⟩ =
      .ok ⟨pos, T ++ ⟨type, s, some (pos + 1), k⟩ :: C, lastIdx JsmnTok.isOpen T⟩ := by
    have hlast : lastIdx JsmnTok.isOpen (T ++ ⟨type, s, none, k⟩ :: C) = some T.length :=
      lastIdx_last rfl hC
    simp only [jsmnClose, hlast]
    rw [if_neg (by simp), modify_last, List.take_left]
  rcases hc with ⟨rfl, rfl⟩ | ⟨rfl, rfl⟩
  · exact byte_runs h (by decide) hclose
  · exact byte_runs h (by decide) hclose

/-- Behind a colon the token before it is counted for. -/
theorem colon_runs {t : JsmnTok} (h : js.drop pos = ascii ':' :: tail) :
    jsmnParse num js ⟨pos, T ++ [t], super⟩ = jsmnParse num js ⟨pos + 1, T ++ [t], some T.length⟩ := by
  have hstep : jsmnStep num js (ascii ':') ⟨pos, T ++ [t], super⟩ =
      .ok ⟨pos, T ++ [t], if T ++ [t] = [] then none else some ((T ++ [t]).length - 1)⟩ := rfl
  rw [if_neg (List.concat_ne_nil _ _), List.length_append, List.length_singleton,
    Nat.add_sub_cancel] at hstep
  exact byte_runs h (by decide) hstep

/-- Behind a comma the container is counted for, whether it was so before or not. -/
theorem comma_runs {type : JsmnType} {s k i : Nat} {C : List JsmnTok}
    (h : js.drop pos = ascii ',' :: tail) (htype : type = .object ∨ type = .array) (hC : Closed C)
    (hi : i = T.length ∨ ∃ b : JsmnTok, (T ++ ⟨type, s, none, k⟩ :: C)[i]? = some b ∧
      b.type = .string) :
    jsmnParse num js ⟨pos, T ++ ⟨type, s, none, k⟩ :: C, some i⟩ =
      jsmnParse num js ⟨pos + 1, T ++ ⟨type, s, none, k⟩ :: C, some T.length⟩ := by
  have hcontainer : JsmnTok.isContainer ⟨type, s, none, k⟩ = true := by
    rcases htype with rfl | rfl <;> rfl
  have hcomma : jsmnComma ⟨pos, T ++ ⟨type, s, none, k⟩ :: C, some i⟩ =
      ⟨pos, T ++ ⟨type, s, none, k⟩ :: C, some T.length⟩ := by
    rcases hi with rfl | ⟨b, hb, hstring⟩
    · simp [jsmnComma, hcontainer]
    · have hlast : lastIdx (fun t => t.isContainer && t.isOpen) (T ++ ⟨type, s, none, k⟩ :: C) =
          some T.length := by
        refine lastIdx_last (by simp [hcontainer, JsmnTok.isOpen]) fun c hc => ?_
        rw [hC c hc, Bool.and_false]
      have hno : b.isContainer = false := by simp [JsmnTok.isContainer, hstring]
      simp [jsmnComma, hb, hno, hlast]
  refine byte_runs h (by decide) (congrArg Except.ok hcomma)

/-! ## Over strings and primitives -/

theorem string_runs {b : Body} (h : js.drop pos = b.text ++ tail) (hroom : T.length < num) :
    jsmnParse num js ⟨pos, T, super⟩ = jsmnParse num js
      ⟨pos + b.text.length, countIn super (T ++ [b.tok pos 0]), super⟩ := by
  have htext : js.drop pos = ascii '"' :: (b.bytes ++ ascii '"' :: tail) := by
    rw [h]
    simp [Body.text]
  have hscan := scanString_append b.ok tail
  have hparse : jsmnParseString num js ⟨pos, T, super⟩ =
      .ok ⟨pos + 1 + b.bytes.length, T ++ [b.tok pos 0], super⟩ := by
    rw [jsmnParseString, drop_next htext, hscan]
    change jsmnAlloc num (b.tok pos 0) ⟨pos, T, super⟩ >>= _ = _
    rw [jsmnAlloc, if_neg (by simp only; omega)]
    rfl
  have hstep : jsmnStep num js (ascii '"') ⟨pos, T, super⟩ =
      jsmnCount <$> jsmnParseString num js ⟨pos, T, super⟩ := rfl
  rw [hparse] at hstep
  refine (byte_runs htext (by decide) hstep).trans ?_
  simp only [jsmnCount, Body.text, List.length_append, List.length_cons, List.length_nil]
  congr 2
  omega

/-- A primitive ends here. -/
def Stops (tail : List UInt8) : Prop := ∀ c ∈ tail.head?, c ∈ primitiveEnds

theorem scanPrimitive_word {w : List UInt8} (hw : ∀ c ∈ w, c ∈ wordBytes) (htail : Stops tail) :
    scanPrimitive (w ++ tail) = .ok w.length := by
  induction w with
  | nil =>
      cases tail with
      | nil => rfl
      | cons c tail =>
          have hc : c ∈ primitiveEnds := htail c rfl
          rw [List.nil_append, scanPrimitive, if_pos hc]
          split <;> rfl
  | cons c w ih =>
      obtain ⟨hc, hw⟩ := List.forall_mem_cons.mp hw
      have hplain : ∀ c ∈ wordBytes, c ≠ 0 ∧ c ∉ primitiveEnds ∧ ¬ (c < 32 ∨ 127 ≤ c) := by
        decide +kernel
      obtain ⟨hzero, hends, hrange⟩ := hplain c hc
      rw [List.cons_append, scanPrimitive, if_neg hzero, if_neg hends, if_neg hrange, ih hw]
      rfl

theorem prim_runs {p : Prim} (h : js.drop pos = p.bytes ++ tail) (htail : Stops tail)
    (hroom : T.length < num) :
    jsmnParse num js ⟨pos, T, super⟩ = jsmnParse num js
      ⟨pos + p.bytes.length,
        countIn super (T ++ [⟨.primitive, pos, some (pos + p.bytes.length), 0⟩]), super⟩ := by
  obtain ⟨c, w, hcw⟩ := List.exists_cons_of_ne_nil p.ne_nil
  have hc : c ∈ wordBytes := p.mem_wordBytes c (by rw [hcw]; exact List.mem_cons_self)
  have hparse : jsmnParsePrimitive num js ⟨pos, T, super⟩ =
      .ok ⟨pos + p.bytes.length - 1,
        T ++ [⟨.primitive, pos, some (pos + p.bytes.length), 0⟩], super⟩ := by
    rw [jsmnParsePrimitive, h, scanPrimitive_word p.mem_wordBytes htail]
    change jsmnAlloc num ⟨.primitive, pos, some (pos + p.bytes.length), 0⟩ ⟨pos, T, super⟩ >>= _ = _
    rw [jsmnAlloc, if_neg (by simp only; omega)]
    rfl
  have hother : ∀ c ∈ wordBytes, c ≠ 0 ∧ c ≠ ascii '{' ∧ c ≠ ascii '[' ∧ c ≠ ascii '}' ∧
      c ≠ ascii ']' ∧ c ≠ ascii '"' ∧ ¬ (c = ascii '\t' ∨ c = ascii '\r' ∨ c = ascii '\n' ∨
      c = ascii ' ') ∧ c ≠ ascii ':' ∧ c ≠ ascii ',' := by
    decide +kernel
  obtain ⟨hzero, h₁, h₂, h₃, h₄, h₅, h₆, h₇, h₈⟩ := hother c hc
  have hstep : jsmnStep num js c ⟨pos, T, super⟩ =
      jsmnCount <$> jsmnParsePrimitive num js ⟨pos, T, super⟩ := by
    rw [jsmnStep, if_neg h₁, if_neg h₂, if_neg h₃, if_neg h₄, if_neg h₅, if_neg h₆, if_neg h₇,
      if_neg h₈]
  have hpos : 0 < p.bytes.length := List.length_pos_iff.mpr p.ne_nil
  rw [hparse] at hstep
  rw [hcw, List.cons_append] at h
  refine (byte_runs h hzero hstep).trans ?_
  simp only [jsmnCount]
  congr 2
  omega

/-! ## Over values -/

/-- There is room for a token as long as there is text. -/
theorem room_of_text {s : List UInt8} (hnum : js.length ≤ num) (h : js.drop pos = s ++ tail)
    (hs : s ≠ []) (hT : T.length ≤ pos) : T.length < num := by
  have hlen := congrArg List.length h
  have hpos := List.length_pos_iff.mpr hs
  rw [List.length_drop, List.length_append] at hlen
  omega

theorem stops_ws {w : List UInt8} {c : UInt8} (hw : ∀ c ∈ w, c ∈ wsBytes) (hc : c ∈ primitiveEnds) :
    Stops (w ++ c :: tail) := by
  cases w with
  | nil =>
      rintro d ⟨⟩
      exact hc
  | cons d w =>
      rintro d ⟨⟩
      exact mem_primitiveEnds_of_ws d (hw d List.mem_cons_self)

/-- `toksuper` behind a value. -/
def Value.after (T : List JsmnTok) (super : Option Nat) : Value → Option Nat
  | .str _ => super
  | .prim _ => super
  | _ => lastIdx JsmnTok.isOpen T

theorem Value.after_open {v : Value} {type : JsmnType} {s k : Nat} {C : List JsmnTok}
    (hC : Closed C) :
    v.after (T ++ ⟨type, s, none, k⟩ :: C) (some T.length) = some T.length := by
  have hlast : lastIdx JsmnTok.isOpen (T ++ ⟨type, s, none, k⟩ :: C) = some T.length :=
    lastIdx_last rfl hC
  cases v <;> first | rfl | exact hlast

/-- The parser gets over a value. -/
def Value.Runs (num : Nat) (js : List UInt8) (v : Value) : Prop :=
  ∀ ⦃pos : Nat⦄ ⦃T : List JsmnTok⦄ ⦃super : Option Nat⦄ ⦃tail : List UInt8⦄,
    js.drop pos = v.text ++ tail → Stops tail → T.length ≤ pos → (∀ i ∈ super, i < T.length) →
    jsmnParse num js ⟨pos, T, super⟩ = jsmnParse num js
      ⟨pos + v.text.length, countIn super T ++ v.toks pos, v.after T super⟩

/-- The parser gets over `text` in a container, and closes it. -/
def RunsIn (num : Nat) (js : List UInt8) (type : JsmnType) (closing : UInt8) (text : List UInt8)
    (count : Nat) (toks : Nat → List JsmnTok) : Prop :=
  ∀ ⦃pos s k : Nat⦄ ⦃T C : List JsmnTok⦄ ⦃tail : List UInt8⦄,
    js.drop pos = text ++ closing :: tail → (T ++ ⟨type, s, none, k⟩ :: C).length ≤ pos →
    Closed C →
    jsmnParse num js ⟨pos, T ++ ⟨type, s, none, k⟩ :: C, some T.length⟩ = jsmnParse num js
      ⟨pos + text.length + 1,
        T ++ ⟨type, s, some (pos + text.length + 1), k + count⟩ :: (C ++ toks pos),
        lastIdx JsmnTok.isOpen T⟩

theorem Closed.append {C D : List JsmnTok} (hC : Closed C) (hD : Closed D) : Closed (C ++ D) :=
  List.forall_mem_append.mpr ⟨hC, hD⟩

section
variable {type : JsmnType} {opening closing : UInt8} {inner : List UInt8} {count : Nat}
  {toks : Nat → List JsmnTok}

theorem ws_runsIn (w : Ws)
    (hclosing : closing = ascii '}' ∧ type = .object ∨ closing = ascii ']' ∧ type = .array) :
    RunsIn num js type closing w.bytes 0 fun _ => [] := by
  intro pos s k T C tail h hT hC
  rw [List.append_nil, Nat.add_zero k]
  exact (ws_runs w.ok h).trans (close_runs (drop_behind h) hclosing hC)

/-- From the opening bracket to the closing one. -/
theorem container_runs (hnum : js.length ≤ num) (hin : RunsIn num js type closing inner count toks)
    (hopening : opening = ascii '{' ∧ type = .object ∨ opening = ascii '[' ∧ type = .array)
    (h : js.drop pos = opening :: inner ++ [closing] ++ tail) (hT : T.length ≤ pos) :
    jsmnParse num js ⟨pos, T, super⟩ = jsmnParse num js
      ⟨pos + (opening :: inner ++ [closing]).length,
        countIn super T ++ ⟨type, pos, some (pos + 2 + inner.length), count⟩ :: toks (pos + 1),
        lastIdx JsmnTok.isOpen T⟩ := by
  have hroom := room_of_text hnum h (List.cons_ne_nil _ _) hT
  rw [List.append_assoc, List.cons_append, List.singleton_append] at h
  refine (open_runs h hopening hroom).trans ?_
  have hlen : (countIn super T ++ [JsmnTok.mk type pos none 0]).length ≤ pos + 1 := by
    rw [List.length_append, length_countIn]
    exact Nat.succ_le_succ hT
  have hrun := hin (drop_next h) hlen fun t ht => nomatch ht
  rw [length_countIn, lastIdx_countIn] at hrun
  refine hrun.trans ?_
  have hpos : pos + 1 + inner.length + 1 = pos + 2 + inner.length := by omega
  rw [Nat.zero_add, List.nil_append, hpos, List.length_append, List.length_cons,
    List.length_singleton]
  congr 2
  omega

end

/-! ## Over what stands in a container -/

section
variable {s k : Nat} {C : List JsmnTok} {c : UInt8} {v : Value} {pre post : Ws}

/-- Over one element and the white space around it. -/
theorem element_runs (hv : v.Runs num js)
    (h : js.drop pos = pre.bytes ++ (v.text ++ (post.bytes ++ c :: tail)))
    (hc : c ∈ primitiveEnds) (hT : (T ++ ⟨.array, s, none, k⟩ :: C).length ≤ pos) (hC : Closed C) :
    jsmnParse num js ⟨pos, T ++ ⟨.array, s, none, k⟩ :: C, some T.length⟩ = jsmnParse num js
      ⟨pos + pre.bytes.length + v.text.length + post.bytes.length,
        T ++ ⟨.array, s, none, k + 1⟩ :: (C ++ v.toks (pos + pre.bytes.length)), some T.length⟩ := by
  have hsuper : ∀ i ∈ some T.length, i < (T ++ ⟨.array, s, none, k⟩ :: C).length := by
    rintro i ⟨⟩
    simp
  have hvalue := drop_behind h
  refine (ws_runs pre.ok h).trans ((hv hvalue (stops_ws post.ok hc) (by omega) hsuper).trans ?_)
  rw [Value.after_open hC, countIn_last, List.append_assoc, List.cons_append]
  exact ws_runs post.ok (drop_behind hvalue)

section
variable {key : Body} {w₁ w₂ : Ws}

/-- Over a key and its colon: the key is counted for the object, and what follows for the key. -/
theorem key_runs (hnum : js.length ≤ num)
    (h : js.drop pos = pre.bytes ++ (key.text ++ (w₁.bytes ++ ascii ':' :: (w₂.bytes ++ tail))))
    (hT : (T ++ ⟨.object, s, none, k⟩ :: C).length ≤ pos) :
    jsmnParse num js ⟨pos, T ++ ⟨.object, s, none, k⟩ :: C, some T.length⟩ = jsmnParse num js
      ⟨pos + pre.bytes.length + key.text.length + w₁.bytes.length + 1 + w₂.bytes.length,
        T ++ ⟨.object, s, none, k + 1⟩ :: C ++ [key.tok (pos + pre.bytes.length) 0],
        some (T ++ JsmnTok.mk .object s none (k + 1) :: C).length⟩ := by
  have hkey := drop_behind h
  have hcolon := drop_behind (drop_behind hkey)
  have hroom := room_of_text hnum hkey (List.cons_ne_nil _ _)
    (Nat.le_trans hT (Nat.le_add_right pos pre.bytes.length))
  refine (ws_runs pre.ok h).trans ((string_runs hkey hroom).trans ?_)
  rw [List.append_assoc, List.cons_append, countIn_last, ← List.cons_append, ← List.append_assoc]
  refine (ws_runs w₁.ok (drop_behind hkey)).trans ((colon_runs hcolon).trans ?_)
  exact ws_runs w₂.ok (drop_next hcolon)

/-- Behind a value that was counted for a key. -/
theorem Value.after_key (v : Value) (hC : Closed C) {t : JsmnTok} (ht : t.isOpen = false) :
    ∃ i, (i = T.length ∨ i = (T ++ JsmnTok.mk .object s none k :: C).length) ∧
      v.after (T ++ ⟨.object, s, none, k⟩ :: C ++ [t])
        (some (T ++ JsmnTok.mk .object s none k :: C).length) = some i := by
  have hlast : lastIdx JsmnTok.isOpen (T ++ ⟨.object, s, none, k⟩ :: C ++ [t]) = some T.length := by
    rw [List.append_assoc]
    exact lastIdx_last rfl (hC.append (List.forall_mem_singleton.mpr ht))
  cases v with
  | str b => exact ⟨_, .inr rfl, rfl⟩
  | prim p => exact ⟨_, .inr rfl, rfl⟩
  | emptyArr w => exact ⟨_, .inl rfl, hlast⟩
  | arr es => exact ⟨_, .inl rfl, hlast⟩
  | emptyObj w => exact ⟨_, .inl rfl, hlast⟩
  | obj ms => exact ⟨_, .inl rfl, hlast⟩

/-- Over one member: behind it the key may still be the one that is counted for. -/
theorem member_runs (hnum : js.length ≤ num) (hv : v.Runs num js)
    (h : js.drop pos = pre.bytes ++ (key.text ++ (w₁.bytes ++ ascii ':' :: (w₂.bytes ++
      (v.text ++ (post.bytes ++ c :: tail))))))
    (hc : c ∈ primitiveEnds) (hT : (T ++ ⟨.object, s, none, k⟩ :: C).length ≤ pos) (hC : Closed C) :
    ∃ i, (i = T.length ∨ i = (T ++ JsmnTok.mk .object s none (k + 1) :: C).length) ∧
      jsmnParse num js ⟨pos, T ++ ⟨.object, s, none, k⟩ :: C, some T.length⟩ = jsmnParse num js
        ⟨pos + pre.bytes.length + key.text.length + w₁.bytes.length + 1 + w₂.bytes.length +
            v.text.length + post.bytes.length,
          T ++ ⟨.object, s, none, k + 1⟩ :: (C ++ key.tok (pos + pre.bytes.length) 1 ::
            v.toks (pos + pre.bytes.length + key.text.length + w₁.bytes.length + 1 +
              w₂.bytes.length)), some i⟩ := by
  have hvalue := drop_behind (drop_next (drop_behind (drop_behind (drop_behind h))))
  obtain ⟨i, hi, hafter⟩ := v.after_key hC (t := key.tok (pos + pre.bytes.length) 0) rfl
    (T := T) (s := s) (k := k + 1)
  refine ⟨i, hi, (key_runs hnum h hT).trans ?_⟩
  have hsuper : ∀ i ∈ some (T ++ JsmnTok.mk .object s none (k + 1) :: C).length,
      i < (T ++ ⟨.object, s, none, k + 1⟩ :: C ++ [key.tok (pos + pre.bytes.length) 0]).length := by
    rintro i ⟨⟩
    simp
  have hlen : (T ++ ⟨.object, s, none, k + 1⟩ :: C ++
      [key.tok (pos + pre.bytes.length) 0]).length ≤
      pos + pre.bytes.length + key.text.length + w₁.bytes.length + 1 + w₂.bytes.length := by
    simp only [List.length_append, List.length_cons, List.length_nil] at hT ⊢
    omega
  refine (hv hvalue (stops_ws post.ok hc) hlen hsuper).trans ?_
  rw [hafter, countIn_last, List.append_assoc, List.append_assoc, List.cons_append,
    List.singleton_append]
  exact ws_runs post.ok (drop_behind hvalue)

end

end

mutual
theorem value_runs (hnum : js.length ≤ num) : ∀ v : Value, v.Runs num js
  | .str b => by
      intro pos T super tail h htail hT hsuper
      have hroom := room_of_text hnum h (List.cons_ne_nil _ _) hT
      refine (string_runs h hroom).trans ?_
      rw [countIn_append hsuper]
      rfl
  | .prim p => by
      intro pos T super tail h htail hT hsuper
      refine (prim_runs h htail (room_of_text hnum h p.ne_nil hT)).trans ?_
      rw [countIn_append hsuper]
      rfl
  | .emptyArr w => by
      intro pos T super tail h htail hT hsuper
      exact container_runs hnum (ws_runsIn w (.inr ⟨rfl, rfl⟩)) (.inr ⟨rfl, rfl⟩) h hT
  | .arr es => by
      intro pos T super tail h htail hT hsuper
      exact container_runs hnum (elements_run hnum es) (.inr ⟨rfl, rfl⟩) h hT
  | .emptyObj w => by
      intro pos T super tail h htail hT hsuper
      exact container_runs hnum (ws_runsIn w (.inl ⟨rfl, rfl⟩)) (.inl ⟨rfl, rfl⟩) h hT
  | .obj ms => by
      intro pos T super tail h htail hT hsuper
      exact container_runs hnum (members_run hnum ms) (.inl ⟨rfl, rfl⟩) h hT

theorem elements_run (hnum : js.length ≤ num) :
    ∀ es : Elements, RunsIn num js .array (ascii ']') es.text es.count es.toks
  | .one pre v post => by
      intro pos s k T C tail h hT hC
      rw [Elements.text, List.append_assoc, List.append_assoc] at h
      have hend := drop_behind (drop_behind (drop_behind h))
      refine (element_runs (value_runs hnum v) h (by decide) hT hC).trans ?_
      refine (close_runs hend (.inr ⟨rfl, rfl⟩) (hC.append (v.toks_closed _))).trans ?_
      simp only [Elements.text, Elements.toks, Elements.count, List.length_append, Nat.add_assoc]
  | .more pre v post es => by
      intro pos s k T C tail h hT hC
      simp only [Elements.text, List.append_assoc, List.cons_append] at h
      have hcomma := drop_behind (drop_behind (drop_behind h))
      have hlen := v.length_toks (pos + pre.bytes.length)
      have hC' := hC.append (v.toks_closed (pos + pre.bytes.length))
      have hT' : (T ++ JsmnTok.mk .array s none (k + 1) ::
          (C ++ v.toks (pos + pre.bytes.length))).length ≤
          pos + pre.bytes.length + v.text.length + post.bytes.length + 1 := by
        simp only [List.length_append, List.length_cons] at hT ⊢
        omega
      refine (element_runs (value_runs hnum v) h (by decide) hT hC).trans ?_
      refine (comma_runs hcomma (.inr rfl) hC' (.inl rfl)).trans ?_
      refine (elements_run hnum es (drop_next hcomma) hT' hC').trans ?_
      simp only [Elements.text, Elements.toks, Elements.count, List.length_append, List.length_cons,
        List.append_assoc, Nat.add_assoc, Nat.add_comm 1]

theorem members_run (hnum : js.length ≤ num) :
    ∀ ms : Members, RunsIn num js .object (ascii '}') ms.text ms.count ms.toks
  | .one pre key w₁ w₂ v post => by
      intro pos s k T C tail h hT hC
      simp only [Members.text, List.append_assoc, List.cons_append] at h
      have hend := drop_behind (drop_behind (drop_behind (drop_next (drop_behind (drop_behind
        (drop_behind h))))))
      obtain ⟨i, -, hrun⟩ := member_runs hnum (value_runs hnum v) h (by decide) hT hC
      have hC' : Closed (C ++ key.tok (pos + pre.bytes.length) 1 :: v.toks (pos + pre.bytes.length +
          key.text.length + w₁.bytes.length + 1 + w₂.bytes.length)) :=
        hC.append (List.forall_mem_cons.mpr ⟨rfl, v.toks_closed _⟩)
      refine hrun.trans ((close_runs hend (.inl ⟨rfl, rfl⟩) hC').trans ?_)
      simp only [Members.text, Members.toks, Members.count, List.length_append, List.length_cons,
        Nat.add_assoc, Nat.add_comm 1]
  | .more pre key w₁ w₂ v post ms => by
      intro pos s k T C tail h hT hC
      simp only [Members.text, List.append_assoc, List.cons_append] at h
      have hcomma := drop_behind (drop_behind (drop_behind (drop_next (drop_behind (drop_behind
        (drop_behind h))))))
      obtain ⟨i, hi, hrun⟩ := member_runs hnum (value_runs hnum v) h (by decide) hT hC
      generalize hpos : pos + pre.bytes.length + key.text.length + w₁.bytes.length + 1 +
        w₂.bytes.length = q at *
      have hlen := v.length_toks q
      have hC' : Closed (C ++ key.tok (pos + pre.bytes.length) 1 :: v.toks q) :=
        hC.append (List.forall_mem_cons.mpr ⟨rfl, v.toks_closed q⟩)
      have hT' : (T ++ JsmnTok.mk .object s none (k + 1) ::
          (C ++ key.tok (pos + pre.bytes.length) 1 :: v.toks q)).length ≤
          q + v.text.length + post.bytes.length + 1 := by
        simp only [List.length_append, List.length_cons] at hT ⊢
        omega
      have hsuper : i = T.length ∨ ∃ b : JsmnTok, (T ++ ⟨.object, s, none, k + 1⟩ ::
          (C ++ key.tok (pos + pre.bytes.length) 1 :: v.toks q))[i]? = some b ∧
          b.type = .string := by
        rcases hi with rfl | rfl
        · exact .inl rfl
        · refine .inr ⟨key.tok (pos + pre.bytes.length) 1, ?_, rfl⟩
          rw [← List.cons_append, ← List.append_assoc, List.getElem?_append_right (Nat.le_refl _),
            Nat.sub_self]
          rfl
      refine hrun.trans ((comma_runs hcomma (.inl rfl) hC' hsuper).trans ?_)
      refine (members_run hnum ms (drop_next hcomma) hT' hC').trans ?_
      have hend : q + v.text.length + post.bytes.length + 1 + ms.text.length + 1 =
          pos + (Members.more pre key w₁ w₂ v post ms).text.length + 1 := by
        simp only [Members.text, List.length_append, List.length_cons]
        omega
      rw [hend, Members.toks, hpos, Members.count, Nat.add_right_comm k, Nat.add_assoc k,
        List.append_assoc, List.cons_append]
end

/-! ## Over a text -/

theorem Document.stops (d : Document) : Stops d.post.bytes := by
  intro c hc
  exact mem_primitiveEnds_of_ws c (d.post.ok c (List.mem_of_mem_head? hc))

/-- At the end of the text, with all tokens closed. -/
theorem end_runs (h : pos = js.length) (hT : Closed T) :
    jsmnParse num js ⟨pos, T, super⟩ = (⟨pos, T, super⟩, none) := by
  have hany : T.any JsmnTok.isOpen = false := List.any_eq_false.mpr fun t ht => by simp [hT t ht]
  rw [jsmnParse, h, Nat.sub_self, jsmnLoop, jsmnEnd]
  simp only [hany]
  rfl

theorem document_runs (d : Document) (hnum : d.text.length ≤ num) :
    jsmnParse num d.text jsmnInit = (⟨d.text.length, d.toks, none⟩, none) := by
  have hpre : d.text.drop 0 = d.pre.bytes ++ (d.value.text ++ d.post.bytes) := by
    rw [List.drop_zero, Document.text, List.append_assoc]
  have hvalue := drop_behind hpre
  have hpost : d.text.drop (0 + d.pre.bytes.length + d.value.text.length) = d.post.bytes ++ [] := by
    rw [drop_behind hvalue, List.append_nil]
  have hrun : jsmnParse num d.text ⟨0 + d.pre.bytes.length, [], none⟩ = jsmnParse num d.text
      ⟨0 + d.pre.bytes.length + d.value.text.length, d.value.toks (0 + d.pre.bytes.length),
        d.value.after [] none⟩ :=
    value_runs hnum d.value hvalue d.stops (Nat.zero_le _) nofun
  have hafter : d.value.after [] none = none := by
    cases d.value <;> rfl
  have hlen : d.pre.bytes.length + d.value.text.length + d.post.bytes.length = d.text.length := by
    simp only [Document.text, List.length_append]
  rw [hafter] at hrun
  refine (ws_runs d.pre.ok hpre).trans (hrun.trans ((ws_runs d.post.ok hpost).trans ?_))
  rw [Nat.zero_add, hlen]
  exact end_runs rfl (d.value.toks_closed _)

end

/-- The tokens of a text, in an array that is large enough. -/
def tokenize (js : List UInt8) : Jsmn × Option JsmnErr := jsmnParse js.length js jsmnInit

theorem tokenize_text (d : Document) :
    tokenize d.text = (⟨d.text.length, d.toks, none⟩, none) :=
  document_runs d (Nat.le_refl _)

end AdvVcom.Json
