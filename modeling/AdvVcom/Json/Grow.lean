/-
# `AdvVcom.Json.Grow` — a token array that grows

`loadconfig` calls `jsmn_parse` with an array for two tokens.  When the array is full the
parser stops in front of the byte that needs a token, and is called again with twice the
room.

**Proved here.**

    a parser that found the array full goes on as if it had not  (`jsmnParse_grow`)
    there are no more tokens than bytes                          (`jsmnLoop_room`)
    the tokens are those an array for all the bytes would get    (`parseGrown_tokenize`)
-/
import AdvVcom.Json.Listing
import Mathlib.Algebra.Group.Nat.Defs

namespace AdvVcom.Json

/-- The loop around `jsmn_parse`: the array is doubled as long as it is too small, and the
parser goes on where it was.  `n` bounds the iterations. -/
def parseGrown (js : List UInt8) : Nat → Nat → Jsmn → Jsmn × Option JsmnErr
  | 0, _, p => (p, some .nomem)
  | n + 1, tokcount, p =>
      match jsmnParse tokcount js p with
      | (p', some .nomem) => parseGrown js n (tokcount * 2) p'
      | r => r

/-! ## The array is full -/

/-- The one fails for want of room, or it does as the other. -/
def Grown {α : Type} (x y : Except JsmnErr α) : Prop := x = .error .nomem ∨ x = y

theorem Grown.rfl {α : Type} {x : Except JsmnErr α} : Grown x x := .inr (Eq.refl x)

theorem Grown.bind {α β : Type} {x y : Except JsmnErr α} {f g : α → Except JsmnErr β}
    (h : Grown x y) (hf : ∀ a, Grown (f a) (g a)) : Grown (x >>= f) (y >>= g) := by
  rcases h with h | h
  · rw [h]
    exact .inl (Eq.refl _)
  · rw [h]
    cases y with
    | error e => exact .rfl
    | ok a => exact hf a

theorem Grown.map {α β : Type} {x y : Except JsmnErr α} (h : Grown x y) (f : α → β) :
    Grown (f <$> x) (f <$> y) := by
  rcases h with h | h
  · rw [h]
    exact .inl (Eq.refl _)
  · rw [h]
    exact .rfl

theorem Grown.ite {α : Type} {c : Prop} [Decidable c] {x x' y y' : Except JsmnErr α}
    (hx : Grown x x') (hy : Grown y y') : Grown (if c then x else y) (if c then x' else y') := by
  by_cases hc : c
  · rw [if_pos hc, if_pos hc]
    exact hx
  · rw [if_neg hc, if_neg hc]
    exact hy

section
variable {num num' : Nat} {js : List UInt8}

theorem jsmnAlloc_grown (hnum : num ≤ num') (t : JsmnTok) (p : Jsmn) :
    Grown (jsmnAlloc num t p) (jsmnAlloc num' t p) := by
  unfold jsmnAlloc
  by_cases hfull : num ≤ p.tokens.length
  · exact .inl (if_pos hfull)
  · rw [if_neg hfull, if_neg (by omega)]
    exact .rfl

theorem jsmnStep_grown (hnum : num ≤ num') (js : List UInt8) (c : UInt8) (p : Jsmn) :
    Grown (jsmnStep num js c p) (jsmnStep num' js c p) := by
  have halloc := jsmnAlloc_grown hnum
  have hopen : ∀ type, Grown (jsmnOpen num type p) (jsmnOpen num' type p) :=
    fun type => (halloc _ _).bind fun _ => .rfl
  have hstring : Grown (jsmnParseString num js p) (jsmnParseString num' js p) :=
    Grown.rfl.bind fun _ => (halloc _ _).bind fun _ => .rfl
  have hprimitive : Grown (jsmnParsePrimitive num js p) (jsmnParsePrimitive num' js p) :=
    Grown.rfl.bind fun _ => (halloc _ _).bind fun _ => .rfl
  unfold jsmnStep
  refine .ite (hopen .object) (.ite (hopen .array) ?_)
  refine .ite .rfl (.ite .rfl (.ite (hstring.map jsmnCount) ?_))
  exact .ite .rfl (.ite .rfl (.ite .rfl (hprimitive.map jsmnCount)))

theorem jsmnEnd_ne_nomem (p : Jsmn) : (jsmnEnd p).2 ≠ some .nomem := by
  unfold jsmnEnd
  split <;> exact nofun

/-- A parser that found the array full can go on with a larger one. -/
theorem jsmnLoop_grow (hnum : num ≤ num') {n : Nat} {p : Jsmn} (hn : js.length ≤ p.pos + n) :
    ((jsmnLoop num js n p).2 = some .nomem ∧
      jsmnLoop num' js n p = jsmnParse num' js (jsmnLoop num js n p).1) ∨
      ((jsmnLoop num js n p).2 ≠ some .nomem ∧ jsmnLoop num' js n p = jsmnLoop num js n p) := by
  induction n generalizing p with
  | zero => exact .inr ⟨jsmnEnd_ne_nomem p, rfl⟩
  | succ n ih =>
      have hparse : jsmnLoop num' js (n + 1) p = jsmnParse num' js p := jsmnLoop_fuel hn (by omega)
      cases hbyte : js[p.pos]? with
      | none =>
          simp only [jsmnLoop, hbyte]
          exact .inr ⟨jsmnEnd_ne_nomem p, trivial⟩
      | some c =>
          by_cases hzero : c = 0
          · simp only [jsmnLoop, hbyte, if_pos hzero]
            exact .inr ⟨jsmnEnd_ne_nomem p, trivial⟩
          rcases jsmnStep_grown hnum js c p with hfull | hsame
          · have hleft : jsmnLoop num js (n + 1) p = (p, some .nomem) := by
              simp only [jsmnLoop, hbyte, if_neg hzero, hfull]
            rw [hleft]
            exact .inl ⟨rfl, hparse⟩
          cases hstep : jsmnStep num js c p with
          | error e =>
              have hleft : jsmnLoop num js (n + 1) p = (p, some e) := by
                simp only [jsmnLoop, hbyte, if_neg hzero, hstep]
              have hright : jsmnLoop num' js (n + 1) p = (p, some e) := by
                simp only [jsmnLoop, hbyte, if_neg hzero, ← hsame, hstep]
              rw [hleft]
              by_cases he : e = .nomem
              · exact .inl ⟨congrArg some he, hparse⟩
              · exact .inr ⟨fun h => he (Option.some.inj h), hright⟩
          | ok p' =>
              have hpos := (jsmnStep_stepped hbyte hzero hstep).pos_le
              simp only [jsmnLoop, hbyte, if_neg hzero, ← hsame, hstep]
              exact ih (show js.length ≤ p'.pos + 1 + n by omega)

/-! ## The array is large enough -/

theorem ok_ne_nomem {α : Type} (a : α) : (Except.ok a : Except JsmnErr α) ≠ .error .nomem := by
  intro h
  cases h

theorem error_ne_nomem {α : Type} {e : JsmnErr} (he : e ≠ .nomem) :
    (Except.error e : Except JsmnErr α) ≠ .error .nomem :=
  fun h => he (Except.error.inj h)

theorem ne_nomem_bind {α β : Type} {x : Except JsmnErr α} {f : α → Except JsmnErr β}
    (hx : x ≠ .error .nomem) (hf : ∀ a, f a ≠ .error .nomem) : x >>= f ≠ .error .nomem := by
  cases x with
  | error e => exact fun h => hx (congrArg Except.error (Except.error.inj h))
  | ok a => exact hf a

theorem ne_nomem_map {α β : Type} {x : Except JsmnErr α} (hx : x ≠ .error .nomem) (f : α → β) :
    f <$> x ≠ .error .nomem := by
  cases x with
  | error e => exact fun h => hx (congrArg Except.error (Except.error.inj h))
  | ok a => exact ok_ne_nomem _

theorem ite_ne_nomem {α : Type} {c : Prop} [Decidable c] {x y : Except JsmnErr α}
    (hx : x ≠ .error .nomem) (hy : y ≠ .error .nomem) : (if c then x else y) ≠ .error .nomem := by
  by_cases hc : c
  · rw [if_pos hc]
    exact hx
  · rw [if_neg hc]
    exact hy

theorem Scan.next_ne_nomem (m : Scan) (c : UInt8) : m.next c ≠ .error .nomem := by
  have hpart : (.error .part : Except JsmnErr (Option Scan)) ≠ .error .nomem :=
    error_ne_nomem (by decide)
  have hinval : (.error .inval : Except JsmnErr (Option Scan)) ≠ .error .nomem :=
    error_ne_nomem (by decide)
  cases m with
  | plain =>
      rw [Scan.next]
      refine ite_ne_nomem hpart (ite_ne_nomem (ok_ne_nomem _) ?_)
      exact ite_ne_nomem (ok_ne_nomem _) (ok_ne_nomem _)
  | escape =>
      rw [Scan.next]
      exact ite_ne_nomem (ok_ne_nomem _) (ite_ne_nomem (ok_ne_nomem _) hinval)
  | hex k =>
      rw [Scan.next]
      exact ite_ne_nomem hpart (ite_ne_nomem (ok_ne_nomem _) hinval)

theorem scanString_ne_nomem (m : Scan) (s : List UInt8) : scanString m s ≠ .error .nomem := by
  induction s generalizing m with
  | nil => exact error_ne_nomem (by decide)
  | cons c s ih =>
      have hnext := m.next_ne_nomem c
      rw [scanString]
      cases hm : m.next c with
      | error e => exact fun h => hnext (hm.trans (congrArg Except.error (Except.error.inj h)))
      | ok next =>
          cases next with
          | none => exact ok_ne_nomem _
          | some m' => exact ne_nomem_map (ih m') _

theorem scanPrimitive_ne_nomem (s : List UInt8) : scanPrimitive s ≠ .error .nomem := by
  induction s with
  | nil => exact ok_ne_nomem _
  | cons c s ih =>
      rw [scanPrimitive]
      refine ite_ne_nomem (ok_ne_nomem _) (ite_ne_nomem (ok_ne_nomem _) ?_)
      exact ite_ne_nomem (error_ne_nomem (by decide)) (ne_nomem_map ih _)

theorem jsmnAlloc_ne_nomem {t : JsmnTok} {p : Jsmn} (hroom : p.tokens.length < num) :
    jsmnAlloc num t p ≠ .error .nomem := by
  rw [jsmnAlloc, if_neg (by omega)]
  exact ok_ne_nomem _

theorem jsmnClose_ne_nomem (type : JsmnType) (p : Jsmn) : jsmnClose type p ≠ .error .nomem := by
  unfold jsmnClose
  split
  · exact error_ne_nomem (by decide)
  split
  · exact error_ne_nomem (by decide)
  · exact ok_ne_nomem _

theorem jsmnStep_ne_nomem (c : UInt8) {p : Jsmn} (hroom : p.tokens.length < num) :
    jsmnStep num js c p ≠ .error .nomem := by
  have hopen : ∀ type, jsmnOpen num type p ≠ .error .nomem := by
    refine fun type => ne_nomem_bind (jsmnAlloc_ne_nomem ?_) fun _ => ok_ne_nomem _
    simp only [length_countIn]
    exact hroom
  have hstring : jsmnParseString num js p ≠ .error .nomem :=
    ne_nomem_bind (scanString_ne_nomem _ _) fun _ =>
      ne_nomem_bind (jsmnAlloc_ne_nomem hroom) fun _ => ok_ne_nomem _
  have hprimitive : jsmnParsePrimitive num js p ≠ .error .nomem :=
    ne_nomem_bind (scanPrimitive_ne_nomem _) fun _ =>
      ne_nomem_bind (jsmnAlloc_ne_nomem hroom) fun _ => ok_ne_nomem _
  unfold jsmnStep
  refine ite_ne_nomem (hopen .object) (ite_ne_nomem (hopen .array) ?_)
  refine ite_ne_nomem (jsmnClose_ne_nomem .object p) (ite_ne_nomem (jsmnClose_ne_nomem .array p) ?_)
  refine ite_ne_nomem (ne_nomem_map hstring jsmnCount) (ite_ne_nomem (ok_ne_nomem _) ?_)
  refine ite_ne_nomem (ok_ne_nomem _) (ite_ne_nomem (ok_ne_nomem _) ?_)
  exact ne_nomem_map hprimitive jsmnCount

/-- There are no more tokens than bytes gone through. -/
def Sparse (p : Jsmn) : Prop := p.tokens.length ≤ p.pos

theorem Stepped.length_le {p p' : Jsmn} (h : Stepped js p p') (hp : Sparse p) :
    p'.tokens.length ≤ p'.pos + 1 := by
  unfold Sparse at hp
  cases h with
  | moved super => exact Nat.le_succ_of_le hp
  | opened htype => simpa [length_countIn] using hp
  | closed super hother => simpa using Nat.le_succ_of_le hp
  | scalar htype hstring hpos =>
      simp only [jsmnCount, length_countIn, List.length_append, List.length_singleton]
      omega

theorem jsmnLoop_sparse (n : Nat) {p : Jsmn} (hp : Sparse p) :
    Sparse (jsmnLoop num js n p).1 ∧
      (js.length ≤ num → (jsmnLoop num js n p).2 ≠ some .nomem) := by
  refine jsmnLoop_invariant (E := fun e => js.length ≤ num → e ≠ some .nomem)
    (fun p _ _ => jsmnEnd_ne_nomem p) (fun c p hbyte hzero hp => ⟨?_, fun p' hstep => ?_⟩) n hp
  · rintro e hstep hnum ⟨⟩
    obtain ⟨hlt, -⟩ := List.getElem?_eq_some_iff.mp hbyte
    exact jsmnStep_ne_nomem c (Nat.lt_of_le_of_lt hp (Nat.lt_of_lt_of_le hlt hnum)) hstep
  · exact (jsmnStep_stepped hbyte hzero hstep).length_le hp

/-- With as many tokens as bytes the array is never full. -/
theorem jsmnLoop_room (hnum : js.length ≤ num) (n : Nat) {p : Jsmn} (hp : Sparse p) :
    (jsmnLoop num js n p).2 ≠ some .nomem :=
  (jsmnLoop_sparse n hp).2 hnum

theorem jsmnParse_grow (hnum : num ≤ num') (js : List UInt8) (p : Jsmn) :
    ((jsmnParse num js p).2 = some .nomem ∧
      jsmnParse num' js p = jsmnParse num' js (jsmnParse num js p).1) ∨
      ((jsmnParse num js p).2 ≠ some .nomem ∧ jsmnParse num' js p = jsmnParse num js p) :=
  jsmnLoop_grow hnum (by omega)

theorem jsmnParse_of_room {p : Jsmn} (hp : Sparse p) (h : (jsmnParse num js p).2 ≠ some .nomem) :
    jsmnParse num js p = jsmnParse js.length js p := by
  rcases Nat.le_total num js.length with hle | hle
  · rcases jsmnParse_grow hle js p with ⟨hfull, -⟩ | ⟨-, hsame⟩
    · exact absurd hfull h
    · exact hsame.symm
  · rcases jsmnParse_grow hle js p with ⟨hfull, -⟩ | ⟨-, hsame⟩
    · exact absurd hfull (jsmnLoop_room (Nat.le_refl _) _ hp)
    · exact hsame

theorem jsmnParse_of_full {p : Jsmn} (hp : Sparse p) (h : (jsmnParse num js p).2 = some .nomem) :
    jsmnParse js.length js p = jsmnParse js.length js (jsmnParse num js p).1 := by
  rcases Nat.le_total num js.length with hle | hle
  · rcases jsmnParse_grow hle js p with ⟨-, hgo⟩ | ⟨hroom, -⟩
    · exact hgo
    · exact absurd h hroom
  · exact absurd h (jsmnLoop_room hle _ hp)

/-- The loop that lets the array grow gives what an array for all the bytes gives. -/
theorem parseGrown_eq {n : Nat} {p : Jsmn} (hp : Sparse p) (hn : js.length ≤ num * 2 ^ n) :
    parseGrown js (n + 1) num p = jsmnParse js.length js p := by
  induction n generalizing num p with
  | zero =>
      rw [Nat.pow_zero, Nat.mul_one] at hn
      have hroom : (jsmnParse num js p).2 ≠ some .nomem := jsmnLoop_room hn _ hp
      rw [parseGrown, ← jsmnParse_of_room hp hroom]
      split
      · rename_i hfull
        exact absurd (congrArg Prod.snd hfull) hroom
      · rfl
  | succ n ih =>
      rw [parseGrown]
      split
      · rename_i p' hfull
        have hgo := jsmnParse_of_full hp (congrArg Prod.snd hfull)
        have hp' : Sparse (jsmnParse num js p).1 := (jsmnLoop_sparse _ hp).1
        rw [hfull] at hgo hp'
        rw [hgo]
        exact ih hp' (by rwa [Nat.mul_assoc, ← Nat.pow_succ'])
      · rename_i hroom
        refine jsmnParse_of_room hp fun hfull => ?_
        exact hroom (jsmnParse num js p).1 (Prod.ext rfl hfull)

end

/-- The tokens that `loadconfig` gets. -/
theorem parseGrown_tokenize (js : List UInt8) :
    parseGrown js (js.length + 1) 2 jsmnInit = tokenize js := by
  refine parseGrown_eq (Nat.zero_le _) ?_
  have hpow := Nat.lt_two_pow_self (n := js.length)
  omega

end AdvVcom.Json
