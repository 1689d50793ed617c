/-
# `AdvVcom.Json.Jsmn` — the tokenizer

`jsmn.c` as it is built here: not strict and without parent links.  A token is a stretch
of the text with a type; a container also counts what stands in it.  `toksuper` is the
token that the next value counts for, `-1` (here `none`) at the top.

A text is a list of bytes of the length `len`.  A loop over the text ends at its end and at
a zero byte.  `count` of `jsmn_parse` starts at `toknext` and grows with it, and `toknext`
is the number of the tokens made so far, so that neither is a field of its own.

**Proved here.**

    one iteration of the loop leaves the result as it is     (`jsmnParse_step`)
    what stands behind a string does not matter for it       (`scanString_append`)
    every string among the tokens was let through            (`jsmnParse_tokens`)
-/
import AdvVcom.Lib.CStr

namespace AdvVcom.Json

open Lib.CStr (ascii asciis)

/-! ## Tokens -/

inductive JsmnType
  | undefined | object | array | string | primitive
  deriving DecidableEq, Repr

/-- `stop` is the field `end`, with `none` for `-1`. -/
structure JsmnTok where
  type : JsmnType
  start : Nat
  stop : Option Nat
  size : Nat
  deriving DecidableEq, Repr

/-- The text of a string or of a primitive. -/
def JsmnTok.data (js : List UInt8) (t : JsmnTok) : List UInt8 :=
  (js.drop t.start).take (t.stop.getD 0 - t.start)

inductive JsmnErr
  | nomem | inval | part
  deriving DecidableEq, Repr

structure Jsmn where
  pos : Nat
  tokens : List JsmnTok
  toksuper : Option Nat
  deriving DecidableEq, Repr

def jsmnInit : Jsmn := ⟨0, [], none⟩

def JsmnTok.isOpen (t : JsmnTok) : Bool := t.stop.isNone

def JsmnTok.isContainer (t : JsmnTok) : Bool := t.type = .array || t.type = .object

/-- The loops that go down from the last token. -/
def lastIdx (P : JsmnTok → Bool) : List JsmnTok → Option Nat
  | [] => none
  | t :: ts =>
      match lastIdx P ts with
      | some i => some (i + 1)
      | none => if P t then some 0 else none

/-- `tokens[toksuper].size++`, unless there is none. -/
def countIn (super : Option Nat) (tokens : List JsmnTok) : List JsmnTok :=
  match super with
  | none => tokens
  | some i => tokens.modify i fun t => { t with size := t.size + 1 }

/-! ## Strings and primitives -/

/-- Where the scan of a string stands: between two characters, behind a backslash, or
at a hexadecimal digit with `k` more behind it. -/
inductive Scan
  | plain | escape | hex (k : Nat)
  deriving DecidableEq, Repr

def isHex (c : UInt8) : Bool :=
  (48 ≤ c && c ≤ 57) || (65 ≤ c && c ≤ 70) || (97 ≤ c && c ≤ 102)

/-- The escapes of one character. -/
def shortEscapes : List UInt8 :=
  [ascii '"', ascii '/', ascii '\\', ascii 'b', ascii 'f', ascii 'r', ascii 'n', ascii 't']

/-- Behind a digit, with `k` more to come. -/
def Scan.digits : Nat → Scan
  | 0 => .plain
  | k + 1 => .hex k

/-- The body of the loop of `jsmn_parse_string`; `none` is the closing quote. -/
def Scan.next : Scan → UInt8 → Except JsmnErr (Option Scan)
  | .plain, c =>
      if c = 0 then .error .part
      else if c = ascii '"' then .ok none
      else if c = ascii '\\' then .ok (some .escape)
      else .ok (some .plain)
  | .escape, c =>
      if c ∈ shortEscapes then .ok (some .plain)
      else if c = ascii 'u' then .ok (some (Scan.digits 4))
      else .error .inval
  | .hex k, c =>
      -- the loop over the digits ends at a zero, and so does the one around it
      if c = 0 then .error .part
      else if isHex c then .ok (some (Scan.digits k))
      else .error .inval

/-- How many bytes stand before the closing quote. -/
def scanString : Scan → List UInt8 → Except JsmnErr Nat
  | _, [] => .error .part
  | m, c :: s =>
      match m.next c with
      | .error e => .error e
      | .ok none => .ok 0
      | .ok (some m') => (· + 1) <$> scanString m' s

def primitiveEnds : List UInt8 :=
  [ascii ':', ascii '\t', ascii '\r', ascii '\n', ascii ' ', ascii ',', ascii ']', ascii '}']

/-- The loop of `jsmn_parse_primitive`: how many bytes the primitive has. -/
def scanPrimitive : List UInt8 → Except JsmnErr Nat
  | [] => .ok 0
  | c :: s =>
      if c = 0 then .ok 0
      else if c ∈ primitiveEnds then .ok 0
      else if c < 32 ∨ 127 ≤ c then .error .inval
      else (· + 1) <$> scanPrimitive s

section
variable (num : Nat) (js : List UInt8)

/-- `jsmn_alloc_token` and `jsmn_fill_token`. -/
def jsmnAlloc (t : JsmnTok) (p : Jsmn) : Except JsmnErr Jsmn :=
  if num ≤ p.tokens.length then .error .nomem
  else .ok { p with tokens := p.tokens ++ [t] }

/-- Ends at the closing quote. -/
def jsmnParseString (p : Jsmn) : Except JsmnErr Jsmn := do
  let n ← scanString .plain (js.drop (p.pos + 1))
  let p' ← jsmnAlloc num ⟨.string, p.pos + 1, some (p.pos + 1 + n), 0⟩ p
  .ok { p' with pos := p.pos + 1 + n }

/-- Ends at the last byte of the primitive. -/
def jsmnParsePrimitive (p : Jsmn) : Except JsmnErr Jsmn := do
  let n ← scanPrimitive (js.drop p.pos)
  let p' ← jsmnAlloc num ⟨.primitive, p.pos, some (p.pos + n), 0⟩ p
  .ok { p' with pos := p.pos + n - 1 }

/-! ## The loop -/

/-- The opening bracket `c`. -/
def jsmnOpen (type : JsmnType) (p : Jsmn) : Except JsmnErr Jsmn := do
  let p' ← jsmnAlloc num ⟨type, p.pos, none, 0⟩ { p with tokens := countIn p.toksuper p.tokens }
  .ok { p' with toksuper := some p.tokens.length }

/-- The closing bracket closes the last open token, and the next one below it is
counted for again. -/
def jsmnClose (type : JsmnType) (p : Jsmn) : Except JsmnErr Jsmn :=
  match lastIdx JsmnTok.isOpen p.tokens with
  | none => .error .inval
  | some i =>
      if (p.tokens[i]?.map (·.type)) ≠ some type then .error .inval
      else .ok { p with
        tokens := p.tokens.modify i fun t => { t with stop := some (p.pos + 1) }
        toksuper := lastIdx JsmnTok.isOpen (p.tokens.take i) }

/-- The comma: behind a member the container is counted for again. -/
def jsmnComma (p : Jsmn) : Jsmn :=
  match p.toksuper with
  | none => p
  | some i =>
      if (p.tokens[i]?.map (·.isContainer)) = some false then
        match lastIdx (fun t => t.isContainer && t.isOpen) p.tokens with
        | some j => { p with toksuper := some j }
        | none => p
      else p

/-- A scalar is counted after it was made. -/
def jsmnCount (p : Jsmn) : Jsmn := { p with tokens := countIn p.toksuper p.tokens }

/-- The body of the loop of `jsmn_parse`, at the byte `c`. -/
def jsmnStep (c : UInt8) (p : Jsmn) : Except JsmnErr Jsmn :=
  if c = ascii '{' then jsmnOpen num .object p
  else if c = ascii '[' then jsmnOpen num .array p
  else if c = ascii '}' then jsmnClose .object p
  else if c = ascii ']' then jsmnClose .array p
  else if c = ascii '"' then jsmnCount <$> jsmnParseString num js p
  else if c = ascii '\t' ∨ c = ascii '\r' ∨ c = ascii '\n' ∨ c = ascii ' ' then .ok p
  else if c = ascii ':' then
    .ok { p with toksuper := if p.tokens = [] then none else some (p.tokens.length - 1) }
  else if c = ascii ',' then .ok (jsmnComma p)
  else jsmnCount <$> jsmnParsePrimitive num js p

/-- What is returned behind the loop: an open container is an error. -/
def jsmnEnd (p : Jsmn) : Jsmn × Option JsmnErr :=
  (p, if p.tokens.any JsmnTok.isOpen then some .part else none)

def jsmnLoop : Nat → Jsmn → Jsmn × Option JsmnErr
  | 0, p => jsmnEnd p
  | n + 1, p =>
      match js[p.pos]? with
      | none => jsmnEnd p
      | some c =>
          if c = 0 then jsmnEnd p
          else
            match jsmnStep num js c p with
            | .error e => (p, some e)
            | .ok p' => jsmnLoop n { p' with pos := p'.pos + 1 }

/-- `jsmn_parse`: the parser it leaves, and the error unless it returns `toknext`.  Each
iteration moves on by a byte at least. -/
def jsmnParse (p : Jsmn) : Jsmn × Option JsmnErr := jsmnLoop num js (js.length - p.pos) p

end

/-! ## Strings by themselves -/

/-- `jsmn_parse_string` lets the string with this body through. -/
def Accepted (body : List UInt8) : Prop :=
  scanString .plain (body ++ [ascii '"']) = .ok body.length

instance (body : List UInt8) : Decidable (Accepted body) :=
  inferInstanceAs (Decidable (scanString .plain (body ++ [ascii '"']) = .ok body.length))

theorem Except.map_succ_eq_ok {ε : Type} {x : Except ε Nat} {n : Nat} :
    (· + 1) <$> x = .ok (n + 1) ↔ x = .ok n := by
  cases x <;> simp [Functor.map, Except.map]

/-- The scan of a string goes on behind a byte. -/
theorem scanString_cons_iff {m : Scan} {c : UInt8} {s : List UInt8} {n : Nat} :
    scanString m (c :: s) = .ok (n + 1) ↔
      ∃ m', m.next c = .ok (some m') ∧ scanString m' s = .ok n := by
  rw [scanString]
  cases hnext : m.next c with
  | error e => simp
  | ok next =>
      cases next with
      | none => simp
      | some m' => simp [Except.map_succ_eq_ok]

/-- What stands behind the closing quote does not matter. -/
theorem scanString_append {m : Scan} {body : List UInt8}
    (h : scanString m (body ++ [ascii '"']) = .ok body.length) (tail : List UInt8) :
    scanString m (body ++ ascii '"' :: tail) = .ok body.length := by
  induction body generalizing m with
  | nil =>
      cases m with
      | plain => rfl
      | escape => cases h
      | hex k => cases h
  | cons c body ih =>
      obtain ⟨m', hnext, hrest⟩ := scanString_cons_iff.mp h
      exact scanString_cons_iff.mpr ⟨m', hnext, ih hrest⟩

theorem Scan.next_eq_none {m : Scan} {c : UInt8} (h : m.next c = .ok none) :
    m = .plain ∧ c = ascii '"' := by
  cases m with
  | plain =>
      rw [Scan.next] at h
      split_ifs at h with _ hquote
      · exact ⟨rfl, hquote⟩
      all_goals cases h
  | escape =>
      rw [Scan.next] at h
      split_ifs at h
      all_goals cases h
  | hex k =>
      rw [Scan.next] at h
      split_ifs at h
      all_goals cases h

/-- What stands before the closing quote is let through by itself. -/
theorem scanString_take {m : Scan} {s : List UInt8} {n : Nat} (h : scanString m s = .ok n) :
    (s.take n).length = n ∧ scanString m (s.take n ++ [ascii '"']) = .ok n := by
  induction s generalizing m n with
  | nil => cases h
  | cons c s ih =>
      rw [scanString] at h
      cases hnext : m.next c with
      | error e =>
          rw [hnext] at h
          cases h
      | ok next =>
          rw [hnext] at h
          cases next with
          | none =>
              obtain ⟨rfl, rfl⟩ := Scan.next_eq_none hnext
              cases h
              exact ⟨rfl, rfl⟩
          | some m' =>
              cases n with
              | zero => cases hrest : scanString m' s <;> simp [hrest, Functor.map, Except.map] at h
              | succ n =>
                  obtain ⟨hlen, hscan⟩ := ih (Except.map_succ_eq_ok.mp h)
                  exact ⟨congrArg (· + 1) hlen, scanString_cons_iff.mpr ⟨m', hnext, hscan⟩⟩

/-! ## What an iteration can do -/

/-- Each way the parser gets through a byte. -/
inductive Stepped (js : List UInt8) (p : Jsmn) : Jsmn → Prop
  | moved (super : Option Nat) : Stepped js p { p with toksuper := super }
  | opened {type : JsmnType} : type = .object ∨ type = .array →
      Stepped js p { p with
        tokens := countIn p.toksuper p.tokens ++ [⟨type, p.pos, none, 0⟩]
        toksuper := some p.tokens.length }
  | closed {i : Nat} (super : Option Nat) : (∀ t, p.tokens[i]? = some t → t.type ≠ .string) →
      Stepped js p { p with
        tokens := p.tokens.modify i fun t => { t with stop := some (p.pos + 1) }
        toksuper := super }
  | scalar {type : JsmnType} {start stop pos : Nat} : type = .string ∨ type = .primitive →
      (type = .string → Accepted (JsmnTok.data js ⟨type, start, some stop, 0⟩)) → p.pos ≤ pos →
      Stepped js p (jsmnCount { p with pos, tokens := p.tokens ++ [⟨type, start, some stop, 0⟩] })

section
variable {num : Nat} {js : List UInt8} {p p' : Jsmn} {c : UInt8}

theorem jsmnAlloc_ok {t : JsmnTok} (h : jsmnAlloc num t p = .ok p') :
    p' = { p with tokens := p.tokens ++ [t] } := by
  unfold jsmnAlloc at h
  split at h
  · cases h
  · cases h
    rfl

theorem Except.bind_eq_ok {ε α β : Type} {x : Except ε α} {f : α → Except ε β} {b : β}
    (h : x >>= f = .ok b) : ∃ a, x = .ok a ∧ f a = .ok b := by
  cases x with
  | error e => cases h
  | ok a => exact ⟨a, rfl, h⟩

theorem Except.map_eq_ok {ε α β : Type} {x : Except ε α} {f : α → β} {b : β}
    (h : f <$> x = .ok b) : ∃ a, x = .ok a ∧ f a = b := by
  cases x with
  | error e => cases h
  | ok a => exact ⟨a, rfl, Except.ok.inj h⟩

theorem jsmnOpen_stepped {type : JsmnType} (htype : type = .object ∨ type = .array)
    (h : jsmnOpen num type p = .ok p') : Stepped js p p' := by
  obtain ⟨q, halloc, hok⟩ := Except.bind_eq_ok h
  cases jsmnAlloc_ok halloc
  cases hok
  exact .opened htype

theorem jsmnClose_stepped {type : JsmnType} (htype : type = .object ∨ type = .array)
    (h : jsmnClose type p = .ok p') : Stepped js p p' := by
  unfold jsmnClose at h
  split at h
  · cases h
  split at h
  · cases h
  · rename_i i _ hsame
    cases h
    refine .closed _ fun t ht => ?_
    rw [ht, Option.map_some, ne_eq, Decidable.not_not, Option.some.injEq] at hsame
    rw [hsame]
    rcases htype with rfl | rfl <;> exact nofun

theorem jsmnComma_stepped : Stepped js p (jsmnComma p) := by
  unfold jsmnComma
  split
  · exact .moved p.toksuper
  split
  · split
    · exact .moved _
    · exact .moved p.toksuper
  · exact .moved p.toksuper

theorem jsmnString_stepped (h : jsmnCount <$> jsmnParseString num js p = .ok p') :
    Stepped js p p' := by
  obtain ⟨q, hstring, rfl⟩ := Except.map_eq_ok h
  obtain ⟨n, hscan, hrest⟩ := Except.bind_eq_ok hstring
  obtain ⟨r, halloc, hok⟩ := Except.bind_eq_ok hrest
  cases jsmnAlloc_ok halloc
  cases hok
  refine .scalar (.inl rfl) (fun _ => ?_) (by omega)
  obtain ⟨hlen, haccepted⟩ := scanString_take hscan
  rw [JsmnTok.data, Option.getD_some, Nat.add_sub_cancel_left, Accepted, hlen]
  exact haccepted

/-- A primitive has a byte at least: the one that led to it. -/
theorem scanPrimitive_pos {s : List UInt8} {n : Nat} (hzero : c ≠ 0) (hends : c ∉ primitiveEnds)
    (h : scanPrimitive (c :: s) = .ok n) : 0 < n := by
  rw [scanPrimitive, if_neg hzero, if_neg hends] at h
  split at h
  · cases h
  · obtain ⟨k, -, rfl⟩ := Except.map_eq_ok h
    exact Nat.succ_pos k

theorem jsmnPrimitive_stepped (hbyte : js[p.pos]? = some c) (hzero : c ≠ 0)
    (hends : c ∉ primitiveEnds) (h : jsmnCount <$> jsmnParsePrimitive num js p = .ok p') :
    Stepped js p p' := by
  obtain ⟨q, hprim, rfl⟩ := Except.map_eq_ok h
  obtain ⟨n, hscan, hrest⟩ := Except.bind_eq_ok hprim
  obtain ⟨r, halloc, hok⟩ := Except.bind_eq_ok hrest
  obtain ⟨hlt, rfl⟩ := List.getElem?_eq_some_iff.mp hbyte
  rw [List.drop_eq_getElem_cons hlt] at hscan
  have hpos := scanPrimitive_pos hzero hends hscan
  cases jsmnAlloc_ok halloc
  cases hok
  exact .scalar (.inr rfl) nofun (by omega)

theorem jsmnStep_stepped (hbyte : js[p.pos]? = some c) (hzero : c ≠ 0)
    (h : jsmnStep num js c p = .ok p') : Stepped js p p' := by
  unfold jsmnStep at h
  split at h
  · exact jsmnOpen_stepped (.inl rfl) h
  split at h
  · exact jsmnOpen_stepped (.inr rfl) h
  split at h
  · exact jsmnClose_stepped (.inl rfl) h
  split at h
  · exact jsmnClose_stepped (.inr rfl) h
  split at h
  · exact jsmnString_stepped h
  split at h
  · cases h
    exact .moved p.toksuper
  split at h
  · cases h
    exact .moved _
  split at h
  · cases h
    exact jsmnComma_stepped
  · refine jsmnPrimitive_stepped hbyte hzero ?_ h
    simp only [primitiveEnds, List.mem_cons, List.not_mem_nil, or_false]
    tauto

theorem Stepped.pos_le (h : Stepped js p p') : p.pos ≤ p'.pos := by
  cases h with
  | scalar _ _ hpos => exact hpos
  | _ => exact Nat.le_refl _

/-! ## The loop by itself -/

/-- Fuel for the bytes that are left is enough. -/
theorem jsmnLoop_fuel {n m : Nat} (hn : js.length ≤ p.pos + n) (hm : js.length ≤ p.pos + m) :
    jsmnLoop num js n p = jsmnLoop num js m p := by
  induction n generalizing m p with
  | zero =>
      cases m with
      | zero => rfl
      | succ m =>
          rw [Nat.add_zero] at hn
          rw [jsmnLoop, jsmnLoop, List.getElem?_eq_none hn]
  | succ n ih =>
      cases m with
      | zero =>
          rw [Nat.add_zero] at hm
          rw [jsmnLoop, jsmnLoop, List.getElem?_eq_none hm]
      | succ m =>
          rw [jsmnLoop, jsmnLoop]
          cases hbyte : js[p.pos]? with
          | none => rfl
          | some c =>
              by_cases hzero : c = 0
              · simp only [if_pos hzero]
              simp only [if_neg hzero]
              cases hstep : jsmnStep num js c p with
              | error e => rfl
              | ok p' =>
                  have hpos := (jsmnStep_stepped hbyte hzero hstep).pos_le
                  exact ih (by simp only; omega) (by simp only; omega)

/-- What every iteration keeps holds when the loop ends, and `E` of the error it ends with. -/
theorem jsmnLoop_invariant {I : Jsmn → Prop} {E : Option JsmnErr → Prop}
    (hend : ∀ p, I p → E (jsmnEnd p).2)
    (hstep : ∀ c p, js[p.pos]? = some c → c ≠ 0 → I p →
      (∀ e, jsmnStep num js c p = .error e → E (some e)) ∧
        ∀ p', jsmnStep num js c p = .ok p' → I { p' with pos := p'.pos + 1 })
    (n : Nat) (hp : I p) : I (jsmnLoop num js n p).1 ∧ E (jsmnLoop num js n p).2 := by
  induction n generalizing p with
  | zero => exact ⟨hp, hend p hp⟩
  | succ n ih =>
      rw [jsmnLoop]
      cases hbyte : js[p.pos]? with
      | none => exact ⟨hp, hend p hp⟩
      | some c =>
          by_cases hzero : c = 0
          · simp only [if_pos hzero]
            exact ⟨hp, hend p hp⟩
          simp only [if_neg hzero]
          obtain ⟨herror, hok⟩ := hstep c p hbyte hzero hp
          cases hresult : jsmnStep num js c p with
          | error e => exact ⟨hp, herror e hresult⟩
          | ok p' => exact ih (hok p' hresult)

/-- An iteration leaves the result as it is. -/
theorem jsmnParse_step (hbyte : js[p.pos]? = some c) (hzero : c ≠ 0)
    (hstep : jsmnStep num js c p = .ok p') :
    jsmnParse num js p = jsmnParse num js { p' with pos := p'.pos + 1 } := by
  obtain ⟨hlt, -⟩ := List.getElem?_eq_some_iff.mp hbyte
  have hpos := (jsmnStep_stepped hbyte hzero hstep).pos_le
  unfold jsmnParse
  obtain ⟨n, hn⟩ : ∃ n, js.length - p.pos = n + 1 := ⟨js.length - p.pos - 1, by omega⟩
  rw [hn, jsmnLoop, hbyte]
  simp only [if_neg hzero, hstep]
  exact jsmnLoop_fuel (by simp only; omega) (by simp only; omega)

end

/-! ## Every token -/

/-- Every token has one of the types that `jsmn_parse` gives. -/
def Typed (toks : List JsmnTok) : Prop := ∀ tok ∈ toks, tok.type ≠ .undefined

/-- Every string was let through. -/
def Spelled (js : List UInt8) (toks : List JsmnTok) : Prop :=
  ∀ tok ∈ toks, tok.type = .string → Accepted (tok.data js)

section
variable {num : Nat} {js : List UInt8} {p p' : Jsmn} {ts : List JsmnTok}

theorem Typed.behind {zs : List JsmnTok} (h : Typed (zs ++ ts)) : Typed ts :=
  fun tok htok => h tok (List.mem_append_right zs htok)

theorem forall_mem_modify {P : JsmnTok → Prop} (h : ∀ t ∈ ts, P t) {i : Nat} {f : JsmnTok → JsmnTok}
    (hf : ∀ t, ts[i]? = some t → P t → P (f t)) : ∀ t ∈ ts.modify i f, P t := by
  intro tok htok
  obtain ⟨n, hn, rfl⟩ := List.getElem_of_mem htok
  rw [List.length_modify] at hn
  rw [List.getElem_modify]
  split
  · rename_i hi
    subst hi
    exact hf _ (List.getElem?_eq_getElem hn) (h _ (List.getElem_mem hn))
  · exact h _ (List.getElem_mem hn)

/-- What holds of a token when it is made, counted for and closed holds of all of them. -/
theorem Stepped.forall_tokens {P : JsmnTok → Prop} (h : Stepped js p p')
    (hcount : ∀ t size, P t → P { t with size })
    (hclose : ∀ t stop, t.type ≠ .string → P t → P { t with stop })
    (hopen : ∀ type start, type = .object ∨ type = .array → P ⟨type, start, none, 0⟩)
    (hscalar : ∀ type start stop, type = .string ∨ type = .primitive →
      (type = .string → Accepted (JsmnTok.data js ⟨type, start, some stop, 0⟩)) →
        P ⟨type, start, some stop, 0⟩)
    (hp : ∀ t ∈ p.tokens, P t) : ∀ t ∈ p'.tokens, P t := by
  have hcounted : ∀ (super : Option Nat) (ts : List JsmnTok), (∀ t ∈ ts, P t) →
      ∀ t ∈ countIn super ts, P t := by
    intro super ts hts
    cases super with
    | none => exact hts
    | some i => exact forall_mem_modify hts fun t _ => hcount t _
  have hconcat : ∀ (ts : List JsmnTok) (t : JsmnTok), (∀ t ∈ ts, P t) → P t → ∀ t' ∈ ts ++ [t], P t' := by
    intro ts t hts ht t' hmem
    rcases List.mem_append.mp hmem with hold | hnew
    · exact hts t' hold
    · rwa [List.mem_singleton.mp hnew]
  cases h with
  | moved super => exact hp
  | opened htype => exact hconcat _ _ (hcounted _ _ hp) (hopen _ _ htype)
  | closed super hother => exact forall_mem_modify hp fun t ht => hclose t _ (hother t ht)
  | scalar htype hstring hpos => exact hcounted _ _ (hconcat _ _ hp (hscalar _ _ _ htype hstring))

theorem Stepped.typed (h : Stepped js p p') (htyped : Typed p.tokens) : Typed p'.tokens := by
  refine h.forall_tokens (fun t size ht => ht) (fun t stop _ ht => ht) ?_ ?_ htyped
  · intro type start htype
    rcases htype with rfl | rfl <;> exact nofun
  · intro type start stop htype _
    rcases htype with rfl | rfl <;> exact nofun

theorem Stepped.spelled (h : Stepped js p p') (hp : Spelled js p.tokens) : Spelled js p'.tokens := by
  refine h.forall_tokens (fun t size ht => ht) ?_ ?_ (fun type start stop _ hstring => hstring) hp
  · exact fun t stop hother _ hstring => absurd hstring hother
  · intro type start htype
    rcases htype with rfl | rfl <;> exact nofun

theorem jsmnLoop_tokens (n : Nat) (htyped : Typed p.tokens) (hspelled : Spelled js p.tokens) :
    Typed (jsmnLoop num js n p).1.tokens ∧ Spelled js (jsmnLoop num js n p).1.tokens := by
  refine (jsmnLoop_invariant (I := fun p => Typed p.tokens ∧ Spelled js p.tokens)
    (E := fun _ => True) (fun _ _ => trivial)
    (fun c p hbyte hzero hp => ⟨fun _ _ => trivial, fun p' hstep => ?_⟩) n ⟨htyped, hspelled⟩).1
  have hstepped := jsmnStep_stepped hbyte hzero hstep
  exact ⟨hstepped.typed hp.1, hstepped.spelled hp.2⟩

theorem jsmnParse_tokens (num : Nat) (js : List UInt8) :
    Typed (jsmnParse num js jsmnInit).1.tokens ∧ Spelled js (jsmnParse num js jsmnInit).1.tokens :=
  jsmnLoop_tokens (p := jsmnInit) _ (List.forall_mem_nil _) (List.forall_mem_nil _)

theorem jsmnParse_typed {e : Option JsmnErr} (h : jsmnParse num js jsmnInit = (p, e)) :
    Typed p.tokens := by
  have htyped := (jsmnParse_tokens num js).1
  rwa [h] at htyped

end

end AdvVcom.Json
