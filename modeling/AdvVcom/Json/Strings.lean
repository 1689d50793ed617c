/-
# `AdvVcom.Json.Strings` — what a string stands for

The body of a string is a run of units: a byte that stands for itself, a backslash and a
letter, or `\u` and four digits.  What the units stand for is said by RFC 8259 (`value`): two
`\u` units that are a surrogate pair stand for one character.

The scanner of the tokenizer lets through the runs of good units.

**Proved here.**

    the bodies let through are the runs of good units          (`accepted_units`)
    a pair takes less as one character than as two             (`length_value`)
    a string stands for itself exactly if it has no escapes    (`value_eq_self_iff`)
-/
import AdvVcom.Json.Jsmn
import Mathlib.Algebra.Group.Nat.Defs
import Mathlib.Data.List.Chain

namespace AdvVcom.Json

open Lib.CStr

/-! ## The number behind `\u` -/

/-- `_c_hex` -/
def cHex (c : UInt8) : Nat :=
  if ascii '0' ≤ c ∧ c ≤ ascii '9' then (c - ascii '0').toNat
  else if ascii 'a' ≤ c ∧ c ≤ ascii 'f' then 10 + (c - ascii 'a').toNat
  else if ascii 'A' ≤ c ∧ c ≤ ascii 'F' then 10 + (c - ascii 'A').toNat
  else 0

/-- The number behind `\u`. -/
def codeUnit (a b c d : UInt8) : Nat := cHex a * 2 ^ 12 + cHex b * 2 ^ 8 + cHex c * 2 ^ 4 + cHex d

/-! ## The units of a body -/

/-- What stands for one character, or for half a surrogate pair. -/
inductive StrUnit
  | raw (b : UInt8) | short (e : UInt8) | hex (h₁ h₂ h₃ h₄ : UInt8)
  deriving DecidableEq, Repr

def StrUnit.text : StrUnit → List UInt8
  | .raw b => [b]
  | .short e => [ascii '\\', e]
  | .hex h₁ h₂ h₃ h₄ => [ascii '\\', ascii 'u', h₁, h₂, h₃, h₄]

def StrUnit.Ok : StrUnit → Prop
  | .raw b => b ≠ 0 ∧ b ≠ ascii '"' ∧ b ≠ ascii '\\'
  | .short e => e ∈ shortEscapes
  | .hex h₁ h₂ h₃ h₄ => isHex h₁ ∧ isHex h₂ ∧ isHex h₃ ∧ isHex h₄

def units : List UInt8 → List StrUnit
  | [] => []
  | c :: s =>
      if c ≠ ascii '\\' then .raw c :: units s
      else
        match s with
        | [] => []
        | e :: s =>
            if e = ascii 'u' then
              match s with
              | h₁ :: h₂ :: h₃ :: h₄ :: s => .hex h₁ h₂ h₃ h₄ :: units s
              | _ => []
            else .short e :: units s

/-! ## What they stand for -/

/-- UTF-8. -/
def utf8 (u : Nat) : List UInt8 :=
  if u < 0x80 then [UInt8.ofNat u]
  else if u < 0x800 then [UInt8.ofNat (0xc0 + u / 2 ^ 6), UInt8.ofNat (0x80 + u % 2 ^ 6)]
  else if u < 0x10000 then
    [UInt8.ofNat (0xe0 + u / 2 ^ 12), UInt8.ofNat (0x80 + u / 2 ^ 6 % 2 ^ 6),
      UInt8.ofNat (0x80 + u % 2 ^ 6)]
  else
    [UInt8.ofNat (0xf0 + u / 2 ^ 18), UInt8.ofNat (0x80 + u / 2 ^ 12 % 2 ^ 6),
      UInt8.ofNat (0x80 + u / 2 ^ 6 % 2 ^ 6), UInt8.ofNat (0x80 + u % 2 ^ 6)]

/-- The character of an escape. -/
def escaped (e : UInt8) : UInt8 :=
  if e = ascii 'b' then 8
  else if e = ascii 'f' then 12
  else if e = ascii 'n' then 10
  else if e = ascii 'r' then 13
  else if e = ascii 't' then 9
  else e

/-- The number of a `\u` unit. -/
def StrUnit.code : StrUnit → Nat
  | .hex h₁ h₂ h₃ h₄ => codeUnit h₁ h₂ h₃ h₄
  | _ => 0

/-- The first half of a surrogate pair. -/
def StrUnit.High (u : StrUnit) : Prop := 0xd800 ≤ u.code ∧ u.code < 0xdc00

/-- The second half. -/
def StrUnit.Low (u : StrUnit) : Prop := 0xdc00 ≤ u.code ∧ u.code < 0xe000

instance (u : StrUnit) : Decidable u.High :=
  inferInstanceAs (Decidable (0xd800 ≤ u.code ∧ u.code < 0xdc00))

instance (u : StrUnit) : Decidable u.Low :=
  inferInstanceAs (Decidable (0xdc00 ≤ u.code ∧ u.code < 0xe000))

/-- A unit by itself. -/
def StrUnit.bytes : StrUnit → List UInt8
  | .raw b => [b]
  | .short e => [escaped e]
  | .hex h₁ h₂ h₃ h₄ => utf8 (codeUnit h₁ h₂ h₃ h₄)

/-- The value of a string: the units one by one, but the halves of a pair as one. -/
def value : List StrUnit → List UInt8
  | [] => []
  | [u] => u.bytes
  | u :: v :: us =>
      if u.High ∧ v.Low then
        utf8 (0x10000 + (u.code - 0xd800) * 0x400 + (v.code - 0xdc00)) ++ value us
      else u.bytes ++ value (v :: us)

/-- The bytes of the units one by one. -/
def unitwise (us : List StrUnit) : List UInt8 := us.flatMap StrUnit.bytes

/-! ## The bytes of a character -/

theorem cHex_lt (c : UInt8) : cHex c < 16 := by
  have h0 : ascii '0' = 48 := rfl
  have h9 : ascii '9' = 57 := rfl
  have ha : ascii 'a' = 97 := rfl
  have hf : ascii 'f' = 102 := rfl
  have hA : ascii 'A' = 65 := rfl
  have hF : ascii 'F' = 70 := rfl
  unfold cHex
  rw [h0, h9, ha, hf, hA, hF]
  grind [UInt8.le_iff_toNat_le, UInt8.toNat_sub_of_le]

theorem codeUnit_lt (a b c d : UInt8) : codeUnit a b c d < 0x10000 := by
  have := cHex_lt a
  have := cHex_lt b
  have := cHex_lt c
  have := cHex_lt d
  unfold codeUnit
  omega

theorem length_utf8_pos (n : Nat) : 0 < (utf8 n).length := by
  unfold utf8
  split
  · exact Nat.succ_pos _
  split
  · exact Nat.succ_pos _
  split
  · exact Nat.succ_pos _
  · exact Nat.succ_pos _

theorem StrUnit.length_bytes_pos (u : StrUnit) : 0 < u.bytes.length := by
  cases u with
  | raw b => exact Nat.one_pos
  | short e => exact Nat.one_pos
  | hex h₁ h₂ h₃ h₄ => exact length_utf8_pos _

/-! ## What the tokenizer lets through -/

section
variable {u : StrUnit} {s : List UInt8}

/-- A unit that is read off the front of a body as itself. -/
def StrUnit.Apart : StrUnit → Prop
  | .raw b => b ≠ ascii '\\'
  | .short e => e ≠ ascii 'u'
  | .hex _ _ _ _ => True

theorem StrUnit.Ok.apart (hu : u.Ok) : u.Apart := by
  cases u with
  | raw b => exact hu.2.2
  | short e =>
      rintro rfl
      exact absurd (show ascii 'u' ∈ shortEscapes from hu) (by decide)
  | hex h₁ h₂ h₃ h₄ => trivial

theorem units_text (hu : u.Apart) (s : List UInt8) : units (u.text ++ s) = u :: units s := by
  cases u with
  | raw b =>
      rw [units.eq_def]
      exact if_pos hu
  | short e =>
      rw [units.eq_def]
      exact if_neg hu
  | hex h₁ h₂ h₃ h₄ => rfl

theorem units_flatMap {us : List StrUnit} (hus : ∀ u ∈ us, u.Apart) (s : List UInt8) :
    units (us.flatMap StrUnit.text ++ s) = us ++ units s := by
  induction us with
  | nil => rfl
  | cons u us ih =>
      obtain ⟨hu, hrest⟩ := List.forall_mem_cons.mp hus
      rw [List.flatMap_cons, List.append_assoc, units_text hu, ih hrest]
      rfl

/-- In front of the digits that are still to come there is one. -/
theorem scanString_hex {k : Nat}
    (h : scanString (.hex k) (s ++ [ascii '"']) = .ok s.length) :
    ∃ d r, s = d :: r ∧ isHex d ∧ scanString (Scan.digits k) (r ++ [ascii '"']) = .ok r.length := by
  cases s with
  | nil => cases h
  | cons d r =>
      obtain ⟨m', hnext, hrest⟩ := scanString_cons_iff.mp h
      simp only [Scan.next] at hnext
      split at hnext
      · cases hnext
      split at hnext
      · rename_i hhex
        cases hnext
        exact ⟨d, r, rfl, hhex, hrest⟩
      · cases hnext

theorem scanString_escape (h : scanString .escape (s ++ [ascii '"']) = .ok s.length) :
    ∃ (u : StrUnit) (r : List UInt8), u.Ok ∧ ascii '\\' :: s = u.text ++ r ∧ Accepted r := by
  cases s with
  | nil => cases h
  | cons e r =>
      obtain ⟨m', hnext, hrest⟩ := scanString_cons_iff.mp h
      simp only [Scan.next] at hnext
      split at hnext
      · rename_i hshort
        cases hnext
        exact ⟨.short e, r, hshort, rfl, hrest⟩
      split at hnext
      · rename_i hu
        cases hnext
        subst hu
        obtain ⟨h₁, r, rfl, hhex₁, hrest⟩ := scanString_hex hrest
        obtain ⟨h₂, r, rfl, hhex₂, hrest⟩ := scanString_hex hrest
        obtain ⟨h₃, r, rfl, hhex₃, hrest⟩ := scanString_hex hrest
        obtain ⟨h₄, r, rfl, hhex₄, hrest⟩ := scanString_hex hrest
        exact ⟨.hex h₁ h₂ h₃ h₄, r, ⟨hhex₁, hhex₂, hhex₃, hhex₄⟩, rfl, hrest⟩
      · cases hnext

/-- A body that is let through begins with a unit. -/
theorem accepted_cons {c : UInt8} (h : Accepted (c :: s)) :
    ∃ (u : StrUnit) (r : List UInt8), u.Ok ∧ c :: s = u.text ++ r ∧ Accepted r := by
  obtain ⟨m', hnext, hrest⟩ := scanString_cons_iff.mp h
  simp only [Scan.next] at hnext
  split at hnext
  · cases hnext
  rename_i hzero
  split at hnext
  · cases hnext
  rename_i hquote
  split at hnext
  · rename_i hback
    cases hnext
    rw [hback]
    exact scanString_escape hrest
  · rename_i hback
    cases hnext
    exact ⟨.raw c, s, ⟨hzero, hquote, hback⟩, rfl, hrest⟩

theorem StrUnit.text_ne_nil (u : StrUnit) : u.text ≠ [] := by
  cases u <;> simp [StrUnit.text]

/-- A body that is let through is a run of good units. -/
theorem accepted_units {body : List UInt8} (h : Accepted body) :
    (units body).flatMap StrUnit.text = body ∧ ∀ u ∈ units body, u.Ok := by
  induction hn : body.length using Nat.strong_induction_on generalizing body with
  | _ n ih =>
      subst hn
      cases body with
      | nil => simp [units]
      | cons c s =>
          obtain ⟨u, r, hu, heq, hr⟩ := accepted_cons h
          have hpos := List.length_pos_iff.mpr u.text_ne_nil
          have hlen : (c :: s).length = u.text.length + r.length := by
            rw [heq, List.length_append]
          obtain ⟨htext, hok⟩ := ih r.length (by omega) hr rfl
          rw [heq, units_text hu.apart, List.flatMap_cons, htext]
          exact ⟨rfl, List.forall_mem_cons.mpr ⟨hu, hok⟩⟩

end

/-! ## Pairs -/

/-- No half of a pair stands before the other. -/
def Unpaired (us : List StrUnit) : Prop := us.IsChain fun u v => ¬ (u.High ∧ v.Low)

theorem value_unpaired {us : List StrUnit} (h : Unpaired us) : value us = unitwise us := by
  induction us with
  | nil => rfl
  | cons u us ih =>
      cases us with
      | nil => simp [value, unitwise]
      | cons v us =>
          obtain ⟨hpair, hrest⟩ := List.isChain_cons_cons.mp h
          rw [value, if_neg hpair, ih hrest]
          simp [unitwise]

theorem length_utf8_le (n : Nat) : (utf8 n).length ≤ 4 := by
  unfold utf8
  split
  · simp
  split
  · simp
  split <;> simp

theorem length_utf8_eq {n : Nat} (hn : 0x10000 ≤ n) : (utf8 n).length = 4 := by
  unfold utf8
  rw [if_neg (by omega), if_neg (by omega), if_neg (by omega)]
  rfl

theorem StrUnit.length_text_le (u : StrUnit) : u.text.length ≤ 6 * u.bytes.length := by
  have hpos : 0 < u.bytes.length := u.length_bytes_pos
  have hsix : u.text.length ≤ 6 := by cases u <;> simp [StrUnit.text]
  omega

/-- The halves of a pair are `\u` units. -/
theorem StrUnit.length_half {u : StrUnit} (h : u.High ∨ u.Low) :
    u.bytes.length = 3 ∧ u.text.length = 6 := by
  have hlo : 0xd800 ≤ u.code := by
    rcases h with h | h
    · exact h.1
    · exact Nat.le_trans (by decide) h.1
  have hhi : u.code < 0xe000 := by
    rcases h with h | h
    · exact Nat.lt_trans h.2 (by decide)
    · exact h.2
  cases u with
  | raw b => cases hlo
  | short e => cases hlo
  | hex h₁ h₂ h₃ h₄ =>
      simp only [StrUnit.code] at hlo hhi
      simp only [StrUnit.bytes, utf8]
      rw [if_neg (by omega), if_neg (by omega), if_pos (by omega)]
      exact ⟨rfl, rfl⟩

/-- A pair takes less as one character. -/
theorem length_value (us : List StrUnit) : (value us).length ≤ (unitwise us).length ∧
    (¬ Unpaired us → (value us).length < (unitwise us).length) := by
  fun_induction value us with
  | case1 => exact ⟨Nat.le_refl _, fun h => absurd List.IsChain.nil h⟩
  | case2 u => exact ⟨by simp [unitwise], fun h => absurd (List.isChain_singleton u) h⟩
  | case3 u v us hpair ih =>
      -- four bytes at most, in the place of twice three
      have hlt : (utf8 (0x10000 + (u.code - 0xd800) * 0x400 + (v.code - 0xdc00)) ++
          value us).length < (unitwise (u :: v :: us)).length := by
        have hfour := length_utf8_le (0x10000 + (u.code - 0xd800) * 0x400 + (v.code - 0xdc00))
        have hrest := ih.1
        simp only [unitwise] at hrest
        simp only [unitwise, List.flatMap_cons, List.length_append,
          (StrUnit.length_half (Or.inl hpair.1)).1, (StrUnit.length_half (Or.inr hpair.2)).1]
        omega
      exact ⟨Nat.le_of_lt hlt, fun _ => hlt⟩
  | case4 u v us hpair ih =>
      have hlen : (unitwise (u :: v :: us)).length = u.bytes.length + (unitwise (v :: us)).length := by
        simp [unitwise]
      rw [List.length_append, hlen]
      refine ⟨Nat.add_le_add_left ih.1 _, fun h => Nat.add_lt_add_left (ih.2 fun hrest => h ?_) _⟩
      exact List.isChain_cons_cons.mpr ⟨hpair, hrest⟩

theorem value_eq_unitwise_iff {us : List StrUnit} : value us = unitwise us ↔ Unpaired us := by
  refine ⟨fun h => ?_, value_unpaired⟩
  by_contra hpaired
  have hlt := (length_value us).2 hpaired
  rw [h] at hlt
  exact Nat.lt_irrefl _ hlt

theorem units_plain {body : List UInt8} (h : ascii '\\' ∉ body) : units body = body.map .raw := by
  induction body with
  | nil => rfl
  | cons c s ih =>
      have hc : c ≠ ascii '\\' := fun hc => h (hc ▸ List.mem_cons_self)
      have hs := ih fun hmem => h (List.mem_cons_of_mem c hmem)
      rw [units.eq_def]
      simp only [ne_eq, hc, not_false_iff, if_true, hs, List.map_cons]

theorem unpaired_raw (body : List UInt8) : Unpaired (body.map .raw) := by
  induction body with
  | nil => exact .nil
  | cons c s ih =>
      cases s with
      | nil => exact List.isChain_singleton _
      | cons d s =>
          refine List.isChain_cons_cons.mpr ⟨fun hpair => ?_, ih⟩
          have hhigh : 0xd800 ≤ 0 := hpair.1.1
          exact absurd hhigh (by decide)

/-- A body without escapes stands for itself. -/
theorem value_plain {body : List UInt8} (h : ascii '\\' ∉ body) : value (units body) = body := by
  rw [units_plain h, value_unpaired (unpaired_raw body)]
  simp [unitwise, StrUnit.bytes, List.flatMap_map]

/-! ## How long the value is -/

/-- If it goes through a part of a string only, the value has bytes that it does not give. -/
theorem value_weight (p r : List StrUnit) :
    6 * (unitwise p).length + (r.flatMap StrUnit.text).length ≤
      6 * (value (p ++ r)).length + (p.flatMap StrUnit.text).length := by
  generalize hus : p ++ r = us
  fun_induction value us generalizing p r with
  | case1 =>
      obtain ⟨rfl, rfl⟩ := List.append_eq_nil_iff.mp hus
      exact Nat.le_refl _
  | case2 u =>
      have hone := u.length_text_le
      rcases List.append_eq_singleton_iff.mp hus with ⟨rfl, rfl⟩ | ⟨rfl, rfl⟩
      · simp [unitwise]
        omega
      · simp [unitwise]
  | case3 u v us hpair ih =>
      obtain ⟨hub, hut⟩ := StrUnit.length_half (Or.inl hpair.1)
      obtain ⟨hvb, hvt⟩ := StrUnit.length_half (Or.inr hpair.2)
      have hfour : (utf8 (0x10000 + (u.code - 0xd800) * 0x400 + (v.code - 0xdc00))).length = 4 :=
        length_utf8_eq (by omega)
      -- the part may end before the pair, between its halves or behind it
      rcases List.append_eq_cons_iff.mp hus with ⟨rfl, rfl⟩ | ⟨p, rfl, hrest⟩
      · have hall := ih [] us rfl
        simp only [unitwise, List.flatMap_nil, List.length_nil, List.flatMap_cons,
          List.length_append] at hall ⊢
        omega
      rcases List.append_eq_cons_iff.mp hrest.symm with ⟨rfl, rfl⟩ | ⟨p, rfl, htail⟩
      · have hall := ih [] us rfl
        simp only [unitwise, List.flatMap_nil, List.length_nil, List.flatMap_cons,
          List.length_append] at hall ⊢
        omega
      · have hall := ih p r htail.symm
        simp only [unitwise, List.flatMap_cons, List.length_append] at hall ⊢
        omega
  | case4 u v us hpair ih =>
      have hone := u.length_text_le
      rcases List.append_eq_cons_iff.mp hus with ⟨rfl, rfl⟩ | ⟨p, rfl, hrest⟩
      · have hall := ih [] (v :: us) rfl
        simp only [unitwise, List.flatMap_nil, List.length_nil, List.flatMap_cons,
          List.length_append] at hall ⊢
        omega
      · have hall := ih p r hrest.symm
        simp only [unitwise, List.flatMap_cons, List.length_append] at hall ⊢
        omega

theorem length_unitwise_le (us : List StrUnit) :
    (unitwise us).length ≤ (us.flatMap StrUnit.text).length := by
  induction us with
  | nil => exact Nat.le_refl _
  | cons u us ih =>
      have hone : u.bytes.length ≤ u.text.length := by
        cases u with
        | raw b => exact Nat.le_refl _
        | short e => exact Nat.le_succ _
        | hex h₁ h₂ h₃ h₄ => exact Nat.le_trans (length_utf8_le _) (by decide : 4 ≤ 6)
      simp only [unitwise, List.flatMap_cons, List.length_append] at ih ⊢
      omega

/-- An escape takes more than what it stands for. -/
theorem length_unitwise_lt {us : List StrUnit} {u : StrUnit} (hu : u ∈ us) (hraw : ∀ b, u ≠ .raw b) :
    (unitwise us).length < (us.flatMap StrUnit.text).length := by
  have hone : u.bytes.length < u.text.length := by
    cases u with
    | raw b => exact absurd rfl (hraw b)
    | short e => exact Nat.lt_succ_self 1
    | hex h₁ h₂ h₃ h₄ => exact Nat.lt_of_le_of_lt (length_utf8_le _) (by decide : 4 < 6)
  obtain ⟨us, vs, rfl⟩ := List.append_of_mem hu
  have hbefore := length_unitwise_le us
  have hbehind := length_unitwise_le vs
  simp only [unitwise, List.flatMap_append, List.flatMap_cons, List.length_append] at hbefore hbehind ⊢
  omega

section
variable {body : List UInt8}

/-- Of the strings that are let through, those without escapes stand for themselves. -/
theorem value_eq_self_iff (h : Accepted body) : value (units body) = body ↔ ascii '\\' ∉ body := by
  refine ⟨fun hself hback => ?_, value_plain⟩
  obtain ⟨htext, hok⟩ := accepted_units h
  rw [← htext] at hback
  obtain ⟨u, hu, hin⟩ := List.mem_flatMap.mp hback
  have hraw : ∀ b, u ≠ .raw b := by
    rintro b rfl
    exact (hok _ hu).2.2 (List.mem_singleton.mp hin).symm
  have hlt := length_unitwise_lt hu hraw
  have hle := (length_value (units body)).1
  rw [hself, ← congrArg List.length htext] at hle
  omega

theorem value_eq_nil_iff (h : Accepted body) : value (units body) = [] ↔ body = [] := by
  constructor
  · intro hnil
    have hweight := value_weight [] (units body)
    rw [List.nil_append, hnil, (accepted_units h).1] at hweight
    exact List.length_eq_zero_iff.mp (by simpa [unitwise] using hweight)
  · rintro rfl
    rfl

end

end AdvVcom.Json
