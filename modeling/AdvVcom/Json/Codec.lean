/-
# `AdvVcom.Json.Codec` — encoding strings, and the contract of the codec

`jstree_string_encode` puts a backslash before each backslash and each quote, and like
`jstree_string_decode` it takes the zero at the end for one more byte.  The encoder wants a
byte of room behind the zero: a buffer of the length it has measured, and one, is too small.
The decoder checks the room for escapes only, and takes the zero for a digit if the string
ends too soon.

Both keep the length in an `int`.  It wraps around for strings of `INT_MAX` bytes and more, and
a sum that is not an `int` is a fault.

**Proved here.**

    the encoder emits the escapes byte by byte                  (`encodeLoop_eq`)
    what it has emitted is decoded to what it was given, unless
    the length wrapped around                                   (`undone_iff`)
    when the bounds are kept, and the length measured is enough (`contract_iff`)
-/
import AdvVcom.Json.Decode

namespace AdvVcom.Json

open Lib Lib.CStr Lib.Snprintf

/-! ## The encoder -/

section
variable (out : Bool) (outlen : Int)

/-- A byte is written, `ptr` goes up, and the call ends if that was the last of the room. -/
def encodePut (ptr : Nat) (b : UInt8) (go : Nat → Except Fault Coded) : Except Fault Coded := do
  let next ← int (ptr + 1)
  let r ← if out && outlen ≠ 0 && outlen ≤ next then .ok ⟨-1, []⟩ else go (ptr + 1)
  .ok (r.put (out && outlen ≠ 0) ptr [b])

/-- The loop of `jstree_string_encode` from a byte of the data on. -/
def encodeLoop : Nat → List UInt8 → Except Fault Coded
  | ptr, [] => .ok ⟨(ptr : Int) - 1, []⟩
  | ptr, c :: s =>
      if c = ascii '\\' ∨ c = ascii '"' then
        encodePut out outlen ptr (ascii '\\') fun ptr =>
          encodePut out outlen ptr c fun ptr => encodeLoop ptr s
      else encodePut out outlen ptr c fun ptr => encodeLoop ptr s

end

/-- `out` says whether there is a buffer. -/
def jstreeStringEncode (out : Bool) (outlen : Int) (data : List UInt8) : Except Fault Coded :=
  encodeLoop out outlen 0 (scanned data)

/-! ## What it emits -/

/-- The unit a byte is encoded as. -/
def escapeUnit (c : UInt8) : StrUnit := if c = ascii '\\' ∨ c = ascii '"' then .short c else .raw c

/-- The bytes with their escapes. -/
def escapes (s : List UInt8) : List UInt8 := (s.map escapeUnit).flatMap StrUnit.text

/-- Bytes one after the other. -/
def emit (out : Bool) (outlen : Int) : Nat → List UInt8 → Except Fault Coded
  | ptr, [] => .ok ⟨(ptr : Int) - 1, []⟩
  | ptr, b :: bs => encodePut out outlen ptr b fun ptr => emit out outlen ptr bs

section
variable {out : Bool} {outlen : Int} {bs : List UInt8}

theorem encodeLoop_eq (ptr : Nat) (s : List UInt8) :
    encodeLoop out outlen ptr s = emit out outlen ptr (escapes s) := by
  induction s generalizing ptr with
  | nil => rfl
  | cons c s ih =>
      have hloop : (fun ptr => encodeLoop out outlen ptr s) =
          fun ptr => emit out outlen ptr (escapes s) := funext ih
      rw [encodeLoop, hloop]
      by_cases hc : c = ascii '\\' ∨ c = ascii '"'
      · have hescapes : escapes (c :: s) = ascii '\\' :: c :: escapes s := by
          simp [escapes, escapeUnit, hc, StrUnit.text]
        rw [if_pos hc, hescapes]
        rfl
      · have hescapes : escapes (c :: s) = c :: escapes s := by
          simp [escapes, escapeUnit, hc, StrUnit.text]
        rw [if_neg hc, hescapes]
        rfl

theorem encodePut_last {ptr : Nat} {b : UInt8} {go : Nat → Except Fault Coded}
    (hlast : outlen = (ptr : Int) + 1) (hmax : outlen ≤ INT_MAX) :
    encodePut true outlen ptr b go = .ok ⟨-1, [(ptr, [b])]⟩ := by
  have hnext : int ((ptr : Int) + 1) = .ok ((ptr : Int) + 1) :=
    int_ok (by unfold INT_MAX; omega) (hlast ▸ hmax)
  have hne : (ptr : Int) + 1 ≠ 0 := by omega
  subst hlast
  rw [encodePut, hnext, ok_bind]
  simp only [Bool.true_and, hne, ne_eq, not_false_iff, decide_true, Int.le_refl, if_true]
  rfl

theorem encodePut_room {ptr : Nat} {b : UInt8} {go : Nat → Except Fault Coded} {r : Coded}
    (hroom : (ptr : Int) + 1 < outlen) (hmax : outlen ≤ INT_MAX) (hgo : go (ptr + 1) = .ok r) :
    encodePut true outlen ptr b go = .ok ⟨r.ret, (ptr, [b]) :: r.writes⟩ := by
  have hnext : int ((ptr : Int) + 1) = .ok ((ptr : Int) + 1) :=
    int_ok (by unfold INT_MAX; omega) (by omega)
  have hne : outlen ≠ 0 := by omega
  have hmore : ¬ outlen ≤ (ptr : Int) + 1 := by omega
  rw [encodePut, hnext, ok_bind]
  simp only [hne, ne_eq, not_false_iff, decide_true, Bool.true_and, hmore, decide_false,
    Bool.false_eq_true, if_false, hgo, ok_bind]
  rfl

theorem unitWrites_raw (hne : outlen ≠ 0) (ptr : Nat) (b : UInt8) (us : List StrUnit) :
    unitWrites true outlen ptr (.raw b :: us) =
      (ptr, [b]) :: unitWrites true outlen (ptr + 1) us := by
  simp [unitWrites, StrUnit.fits, StrUnit.bytes, hne]

/-- Into a buffer: the bytes have to end before it does. -/
theorem emit_fill (hmax : outlen ≤ INT_MAX) (ptr : Nat) (hptr : (ptr : Int) < outlen) :
    emit true outlen ptr bs =
      .ok ⟨if (ptr : Int) + bs.length < outlen then (ptr : Int) + bs.length - 1 else -1,
        unitWrites true outlen ptr ((bs.take (outlen - ptr).toNat).map .raw)⟩ := by
  induction bs generalizing ptr with
  | nil => simp [emit, unitWrites, hptr]
  | cons b bs ih =>
      have hne : outlen ≠ 0 := by omega
      rw [emit, List.length_cons]
      by_cases hlast : outlen = (ptr : Int) + 1
      · have hone : (outlen - ptr).toNat = 1 := by omega
        rw [encodePut_last hlast hmax, if_neg (by omega), hone, List.take_succ_cons, List.take_zero,
          List.map_singleton, unitWrites_raw hne]
        rfl
      · have hroom : (ptr : Int) + 1 < outlen := by omega
        have hmore : (outlen - ptr).toNat = (outlen - (ptr + 1 : Nat)).toNat + 1 := by omega
        have hsum : ((ptr + 1 : Nat) : Int) + bs.length = ptr + (bs.length + 1 : Nat) := by omega
        rw [encodePut_room hroom hmax (ih (ptr + 1) (by omega)), hmore, List.take_succ_cons,
          List.map_cons, unitWrites_raw hne, hsum]

/-- Without one the bytes are counted. -/
theorem emit_measure (ptr : Nat) (hptr : (ptr : Int) ≤ INT_MAX) :
    emit false outlen ptr bs =
      if (ptr : Int) + bs.length ≤ INT_MAX then .ok ⟨(ptr : Int) + bs.length - 1, []⟩
      else .error .overflow := by
  induction bs generalizing ptr with
  | nil => simp [emit, hptr]
  | cons b bs ih =>
      rw [emit, encodePut, List.length_cons]
      by_cases hnext : (ptr : Int) + 1 ≤ INT_MAX
      · have hsum : ((ptr + 1 : Nat) : Int) + bs.length = ptr + (bs.length + 1 : Nat) := by omega
        rw [int_ok (by unfold INT_MAX; omega) hnext, ok_bind]
        simp only [Bool.false_and, Bool.false_eq_true, if_false]
        rw [ih (ptr + 1) hnext, hsum]
        split
        · rfl
        · rfl
      · have hover : int ((ptr : Int) + 1) = .error .overflow := if_neg fun h => hnext h.2
        rw [hover, if_neg (by omega)]
        rfl

end

section
variable {outlen : Int} {data : List UInt8}

theorem encode_fill (hpos : 0 < outlen) (hmax : outlen ≤ INT_MAX) :
    jstreeStringEncode true outlen data =
      .ok ⟨if ((escapes (scanned data)).length : Int) < outlen then
          ((escapes (scanned data)).length : Int) - 1 else -1,
        unitWrites true outlen 0 (((escapes (scanned data)).take outlen.toNat).map .raw)⟩ := by
  have hfill : emit true outlen 0 (escapes (scanned data)) = _ := emit_fill hmax 0 hpos
  rw [Int.natCast_zero, Int.zero_add, Int.sub_zero] at hfill
  rw [jstreeStringEncode, encodeLoop_eq, hfill]

theorem unitwise_raw (bs : List UInt8) : unitwise (bs.map .raw) = bs := by
  simp [unitwise, StrUnit.bytes, List.flatMap_map]

/-- With room for it, the buffer holds what was emitted. -/
theorem slice_emitted {bs : List UInt8} (hroom : (bs.length : Int) < outlen) (m : Mem) :
    (m.write (unitWrites true outlen 0 ((bs.take outlen.toNat).map .raw))).slice 0 bs.length =
      bs := by
  have hall : bs.take outlen.toNat = bs := List.take_of_length_le (by omega)
  have hfits : ((0 + (unitwise (bs.map .raw)).length : Nat) : Int) ≤ outlen := by
    rw [unitwise_raw, Nat.zero_add]
    exact Int.le_of_lt hroom
  rw [hall, write_unitWrites 0 (by omega) hfits, unitwise_raw, Mem.slice_blit_self]

end

/-! ## Encoding and decoding -/

section
variable {c : UInt8} {d : List UInt8} {outlen : Int}

theorem escapeUnit_ok (hc : c ≠ 0) : (escapeUnit c).Ok := by
  unfold escapeUnit
  split
  · rename_i hspecial
    rcases hspecial with rfl | rfl
    · exact (by decide : ascii '\\' ∈ shortEscapes)
    · exact (by decide : ascii '"' ∈ shortEscapes)
  · rename_i hplain
    exact ⟨hc, fun h => hplain (.inr h), fun h => hplain (.inl h)⟩

theorem escapeUnit_bytes (c : UInt8) : (escapeUnit c).bytes = [c] := by
  unfold escapeUnit
  split
  · rename_i hspecial
    rcases hspecial with rfl | rfl
    · rfl
    · rfl
  · rfl

theorem escapeUnit_ne_slash (c : UInt8) : escapeUnit c ≠ slash := by
  unfold escapeUnit
  split
  · rename_i hspecial
    rcases hspecial with rfl | rfl
    · decide
    · decide
  · intro h
    cases h

theorem escapeUnit_text_ne_zero (hc : c ≠ 0) : 0 ∉ (escapeUnit c).text := by
  unfold escapeUnit
  split
  · simp [StrUnit.text, hc.symm]
    decide
  · simp [StrUnit.text, hc.symm]

theorem zero_not_mem_escapes (hd : 0 ∉ d) : 0 ∉ escapes d := by
  intro hmem
  obtain ⟨u, hu, hzero⟩ := List.mem_flatMap.mp hmem
  obtain ⟨c, hc, rfl⟩ := List.mem_map.mp hu
  exact escapeUnit_text_ne_zero (fun h => hd (h ▸ hc)) hzero

theorem unitwise_escapes (d : List UInt8) : unitwise (d.map escapeUnit) = d := by
  simp [unitwise, List.flatMap_map, escapeUnit_bytes]

/-- Each byte is encoded as a unit that the tokenizer lets through and the decoder knows. -/
theorem units_escapes (hd : 0 ∉ d) :
    units (escapes d) = d.map escapeUnit ∧ ∀ u ∈ d.map escapeUnit, u.Ok ∧ u.Known := by
  have hunits : ∀ u ∈ d.map escapeUnit, u.Ok ∧ u.Known := by
    intro u hu
    obtain ⟨c, hc, rfl⟩ := List.mem_map.mp hu
    have hok := escapeUnit_ok fun h : c = 0 => hd (h ▸ hc)
    exact ⟨hok, hok.known (escapeUnit_ne_slash c)⟩
  have hall := units_flatMap (fun u hu => (hunits u hu).1.apart) []
  rw [List.append_nil] at hall
  exact ⟨hall.trans (List.append_nil _), hunits⟩

/-- A buffer is filled with a text that ends with its zero and has quotes and backslashes in
escapes only, and a buffer with room for `d` then gets `d` from it. -/
def Undone (d : List UInt8) (outlen : Int) : Prop :=
  ∀ (m : Mem) (r : Coded), jstreeStringEncode true outlen d = .ok r → 0 ≤ r.ret →
    ∃ text : List UInt8, (m.write r.writes).slice 0 (r.ret.toNat + 1) = text ++ [0] ∧ 0 ∉ text ∧
      (units text).flatMap StrUnit.text = text ∧ (∀ u ∈ units text, u.Ok) ∧
      ∀ room : Int, (d.length : Int) + 1 ≤ room → room ≤ INT_MAX →
        ∃ r', jstreeStringDecode true room text = .ok r' ∧ r'.ret = d.length ∧
          ∀ m' : Mem, (m'.write r'.writes).slice 0 (d.length + 1) = d ++ [0]

theorem escapes_append (s t : List UInt8) : escapes (s ++ t) = escapes s ++ escapes t := by
  simp [escapes]

/-- An `int` holds the length. -/
theorem undone_of_short (hd : 0 ∉ d) (hpos : 0 < outlen) (hmax : outlen ≤ INT_MAX)
    (hlen : (d.length : Int) < INT_MAX) : Undone d outlen := by
  intro m r hr hret
  obtain ⟨hunits, hgood⟩ := units_escapes hd
  have hemitted : escapes (scanned d) = escapes d ++ [0] := by
    rw [scanned_eq hlen, escapes_append]
    rfl
  rw [encode_fill hpos hmax, hemitted] at hr
  cases hr
  by_cases hroom : ((escapes d ++ [0]).length : Int) < outlen
  swap
  · simp only [if_neg hroom] at hret
    exact absurd hret (by decide)
  refine ⟨escapes d, ?_, zero_not_mem_escapes hd, ?_, ?_, ?_⟩
  · have hslice := slice_emitted hroom m
    simp only [if_pos hroom]
    rw [List.length_append, List.length_singleton] at hslice ⊢
    rwa [show ((((escapes d).length + 1 : Nat) : Int) - 1).toNat + 1 = (escapes d).length + 1 by omega]
  · rw [hunits]
    rfl
  · rw [hunits]
    exact fun u hu => (hgood u hu).1
  · intro room hfits _
    have htext : ((escapes d).length : Int) < INT_MAX := by
      rw [List.length_append, List.length_singleton] at hroom
      omega
    have hdecode : jstreeStringDecode true room (escapes d) = _ :=
      decode_closed (fun u hu => (hgood u hu).2) htext true room
    rw [unitwise_escapes] at hdecode
    have hfill : ((unitwise (d.map escapeUnit)).length : Int) + 1 ≤ room := by
      rw [unitwise_escapes]
      exact hfits
    refine ⟨_, hdecode, rfl, fun m' => ?_⟩
    have hslice := write_closed hfill m'
    rwa [unitwise_escapes] at hslice

/-- Of a longer string a part without the zero at its end is encoded. -/
theorem not_undone_of_long (hd : 0 ∉ d) (hpos : 0 < outlen) (hmax : outlen ≤ INT_MAX)
    (hlen : INT_MAX ≤ d.length) (hsome : scanned d ≠ [])
    (hroom : ((escapes (scanned d)).length : Int) < outlen) : ¬ Undone d outlen := by
  intro hundone
  have hzero : 0 ∉ escapes (scanned d) := by
    rw [scanned_wraps hlen]
    exact zero_not_mem_escapes fun hmem => hd (List.mem_of_mem_take hmem)
  have hemitted : 0 < (escapes (scanned d)).length := by
    obtain ⟨c, s, hs⟩ := List.exists_cons_of_ne_nil hsome
    have hne := (escapeUnit c).text_ne_nil
    rw [hs, escapes, List.map_cons, List.flatMap_cons, List.length_append]
    exact Nat.lt_of_lt_of_le (List.length_pos_iff.mpr hne) (Nat.le_add_right _ _)
  have hret : (0 : Int) ≤ (escapes (scanned d)).length - 1 := by omega
  obtain ⟨text, htext, -⟩ := hundone (fun _ => 0) _ (encode_fill hpos hmax)
    (by rw [if_pos hroom]; exact hret)
  simp only [if_pos hroom] at htext
  rw [show (((escapes (scanned d)).length : Int) - 1).toNat + 1 = (escapes (scanned d)).length by omega,
    slice_emitted hroom] at htext
  rw [htext] at hzero
  exact hzero (List.mem_append_right _ (List.mem_singleton_self 0))

theorem scanned_eq_nil_iff : scanned d = [] ↔ memlen d ≤ 0 := by
  rw [scanned, List.take_eq_nil_iff, Int.toNat_eq_zero]
  exact or_iff_left (by simp)

end

/-- Decoding undoes encoding, unless the length of the string wraps around to one that a part
of it has, and there is room for that. -/
theorem undone_iff (d : List UInt8) (outlen : Int) (hd : 0 ∉ d) (hpos : 0 < outlen)
    (hmax : outlen ≤ INT_MAX) :
    Undone d outlen ↔ (d.length : Int) < INT_MAX ∨ memlen d ≤ 0 ∨
      outlen ≤ (escapes (d.take (memlen d).toNat)).length := by
  by_cases hlen : (d.length : Int) < INT_MAX
  · exact iff_of_true (undone_of_short hd hpos hmax hlen) (.inl hlen)
  rw [or_iff_right hlen]
  have hlong := Int.not_lt.mp hlen
  rw [← scanned_wraps hlong]
  constructor
  · intro hundone
    by_contra hcond
    obtain ⟨hsome, hroom⟩ := not_or.mp hcond
    exact not_undone_of_long hd hpos hmax hlong (fun h => hsome (scanned_eq_nil_iff.mp h))
      (Int.not_le.mp hroom) hundone
  · intro hcond m r hr hret
    rw [encode_fill hpos hmax] at hr
    cases hr
    -- nothing is emitted, or more than there is room for
    rcases hcond with hnone | hfull
    · rw [scanned_eq_nil_iff.mpr hnone] at hret
      simp only [escapes, List.map_nil, List.flatMap_nil, List.length_nil, Int.natCast_zero,
        if_pos hpos] at hret
      exact absurd hret (by decide)
    · simp only [if_neg (Int.not_lt.mpr hfull)] at hret
      exact absurd hret (by decide)

/-- A quote inside and a backslash at the end. -/
theorem undone_quoted : 0 ∉ asciis "a\"b\\" ∧ Undone (asciis "a\"b\\") 8 := by
  have hd : 0 ∉ asciis "a\"b\\" := by decide
  exact ⟨hd, (undone_iff _ 8 hd (by decide) (by decide)).mpr (.inl (by decide +kernel))⟩

/-- One byte is left of a length of `2 ^ 32`, and it is encoded without a zero behind it. -/
theorem not_undone_wrapped :
    0 ∉ List.replicate (2 ^ 32) (ascii 'a') ∧ ¬ Undone (List.replicate (2 ^ 32) (ascii 'a')) 2 := by
  have hd : 0 ∉ List.replicate (2 ^ 32) (ascii 'a') :=
    fun h => absurd (List.eq_of_mem_replicate h) (by decide)
  have hlen : (List.replicate (2 ^ 32) (ascii 'a')).length = 2 ^ 32 := List.length_replicate
  have hlong : INT_MAX ≤ (List.replicate (2 ^ 32) (ascii 'a')).length := by
    rw [hlen]
    decide
  have hone : memlen (List.replicate (2 ^ 32) (ascii 'a')) = 1 := by
    unfold memlen
    simp only [hlen]
    decide +kernel
  have hscanned : scanned (List.replicate (2 ^ 32) (ascii 'a')) = [ascii 'a'] := by
    rw [scanned_wraps hlong, hone, List.take_replicate]
    rfl
  refine ⟨hd, not_undone_of_long hd (by decide) (by decide) hlong ?_ ?_⟩
  · rw [hscanned]
    exact List.cons_ne_nil _ _
  · rw [hscanned]
    decide

/-! ## Measuring and filling -/

inductive Codec
  | encode | decode
  deriving DecidableEq, Repr

def Codec.call : Codec → Bool → Int → List UInt8 → Except Fault Coded
  | .encode, out, outlen, data => jstreeStringEncode out outlen data
  | .decode, out, outlen, data => jstreeStringDecode out outlen data

/-- The call returns and writes nothing at `outlen` or beyond, and a buffer of the length
measured, and one, is filled up to its zero. -/
def Contract (f : Codec) (data : List UInt8) (outlen : Int) : Prop :=
  (∃ r, f.call true outlen data = .ok r ∧ InBounds outlen r.writes) ∧
    ∀ r, f.call false 0 data = .ok r → 0 ≤ r.ret →
      ∃ r', f.call true (r.ret + 1) data = .ok r' ∧ r'.ret = r.ret ∧
        ∀ m : Mem, m.write r'.writes r.ret.toNat = 0

/-- A unit that stands for a zero. -/
def StrUnit.Null : StrUnit → Prop
  | .raw b => b = 0
  | .short _ => False
  | .hex h₁ h₂ h₃ h₄ => codeUnit h₁ h₂ h₃ h₄ = 0

/-- For the encoder, no length is measured; for the decoder, no index overflows, there is room
for each byte that stands for itself, and the unit that takes in the zero is one. -/
def Codec.Keeps : Codec → List UInt8 → Int → Prop
  | .encode, data, _ => memlen data ≤ 0 ∨ INT_MAX < (escapes (scanned data)).length
  | .decode, data, outlen =>
      ¬ Overruns data ∧
      (∀ k b, (known (scanned data))[k]? = some (.raw b) →
        ((unitwise ((known (scanned data)).take k)).length : Int) < outlen) ∧
      ∀ us u, known (scanned data) = us ++ [u] →
        (known (scanned data)).flatMap StrUnit.text = scanned data → u.Null

section
variable {outlen : Int} {data : List UInt8}

theorem inBounds_escape {u : StrUnit} (hu : ∀ b, u ≠ .raw b) (ptr : Nat) :
    InBounds outlen (if u.fits true outlen ptr then [(ptr, u.bytes)] else []) := by
  have hpos := u.length_bytes_pos
  split
  · rename_i hfits
    have hroom : ((ptr + u.bytes.length - 1 : Nat) : Int) < outlen := by
      cases u with
      | raw b => exact absurd rfl (hu b)
      | short e => exact of_decide_eq_true (Bool.and_eq_true_iff.mp hfits).2
      | hex h₁ h₂ h₃ h₄ => exact of_decide_eq_true (Bool.and_eq_true_iff.mp hfits).2
    refine List.forall_mem_singleton.mpr ?_
    simp only
    omega
  · exact List.forall_mem_nil _

/-- Only bytes that stand for themselves can be written outside. -/
theorem inBounds_unitWrites (hpos : 0 < outlen) (ptr : Nat) (us : List StrUnit) :
    InBounds outlen (unitWrites true outlen ptr us) ↔
      ∀ k b, us[k]? = some (.raw b) → ((ptr + (unitwise (us.take k)).length : Nat) : Int) < outlen := by
  induction us generalizing ptr with
  | nil => simp [unitWrites, InBounds]
  | cons u us ih =>
      have hne : outlen ≠ 0 := by omega
      have hbytes : ∀ k, ptr + (unitwise ((u :: us).take (k + 1))).length =
          ptr + u.bytes.length + (unitwise (us.take k)).length := by
        intro k
        rw [List.take_succ_cons, unitwise, List.flatMap_cons, List.length_append, Nat.add_assoc]
        rfl
      rw [unitWrites, inBounds_append, ih]
      refine Iff.trans (and_congr ?_ ?_) Nat.and_forall_add_one
      · cases u with
        | raw b =>
            have hfits : (StrUnit.raw b).fits true outlen ptr = true := decide_eq_true hne
            rw [if_pos hfits]
            refine List.forall_mem_singleton.trans ⟨fun hroom _ _ => ?_, fun hroom => ?_⟩
            · exact Int.lt_of_add_one_le hroom
            · exact Int.add_one_le_of_lt (hroom b rfl)
        | short e => exact iff_of_true (inBounds_escape (by simp) ptr) fun b hb => by cases hb
        | hex h₁ h₂ h₃ h₄ =>
            exact iff_of_true (inBounds_escape (by simp) ptr) fun b hb => by cases hb
      · simp only [hbytes, List.getElem?_cons_succ]

theorem encode_measure :
    jstreeStringEncode false 0 data =
      if ((escapes (scanned data)).length : Int) ≤ INT_MAX then
        .ok ⟨((escapes (scanned data)).length : Int) - 1, []⟩ else .error .overflow := by
  have hmeasure : emit false 0 0 (escapes (scanned data)) = _ := emit_measure 0 (by decide)
  rw [Int.natCast_zero, Int.zero_add] at hmeasure
  rw [jstreeStringEncode, encodeLoop_eq, hmeasure]

/-- The encoder stops at the end of the room. -/
theorem inBounds_encode (hpos : 0 < outlen) (bs : List UInt8) :
    InBounds outlen (unitWrites true outlen 0 ((bs.take outlen.toNat).map .raw)) := by
  refine (inBounds_unitWrites hpos 0 _).mpr fun k b hk => ?_
  have hlt := (List.getElem?_eq_some_iff.mp hk).1
  rw [List.length_map, List.length_take] at hlt
  rw [← List.map_take, unitwise_raw, List.length_take, List.length_take]
  omega

theorem length_escapes_eq_zero : (escapes (scanned data)).length = 0 ↔ memlen data ≤ 0 := by
  rw [← scanned_eq_nil_iff, List.length_eq_zero_iff]
  constructor
  · intro hnil
    cases hs : scanned data with
    | nil => rfl
    | cons c s =>
        rw [hs, escapes, List.map_cons, List.flatMap_cons, List.append_eq_nil_iff] at hnil
        exact absurd hnil.1 (escapeUnit c).text_ne_nil
  · intro hnil
    rw [hnil]
    rfl

theorem contract_encode (hpos : 0 < outlen) (hmax : outlen ≤ INT_MAX) :
    Contract .encode data outlen ↔
      memlen data ≤ 0 ∨ INT_MAX < (escapes (scanned data)).length := by
  have hbounds : ∃ r, jstreeStringEncode true outlen data = .ok r ∧ InBounds outlen r.writes :=
    ⟨_, encode_fill hpos hmax, inBounds_encode hpos _⟩
  refine (and_iff_right hbounds).trans ?_
  simp only [Codec.call, encode_measure]
  by_cases hlong : INT_MAX < (escapes (scanned data)).length
  · rw [if_neg (Int.not_le.mpr hlong)]
    exact iff_of_true (fun r hr => by cases hr) (.inr hlong)
  rw [if_pos (Int.not_lt.mp hlong), or_iff_left hlong, ← length_escapes_eq_zero]
  constructor
  · intro hfill
    by_contra hsome
    obtain ⟨r', hr', hret, -⟩ := hfill _ rfl (by simp only; omega)
    -- the zero would be the last of the room
    simp only [Int.sub_add_cancel] at hr'
    rw [encode_fill (by omega) (Int.not_lt.mp hlong), if_neg (Int.lt_irrefl _)] at hr'
    cases hr'
    simp only at hret
    omega
  · intro hnone r hr hret
    rw [← Except.ok.inj hr, hnone] at hret
    exact absurd hret (by decide)

theorem ofNat_ne_zero {k : Nat} (hpos : 0 < k) (hlt : k < 256) : UInt8.ofNat k ≠ 0 := by
  intro h
  have hk := congrArg UInt8.toNat h
  rw [UInt8.toNat_ofNat', Nat.mod_eq_of_lt hlt] at hk
  exact Nat.ne_of_gt hpos hk

/-- Only the character zero has a zero in it, and that is its last byte. -/
theorem utf8_last {n : Nat} (hn : n < 0x10000) :
    ∃ bs c, utf8 n = bs ++ [c] ∧ (c = 0 ↔ n = 0) ∧ 0 ∉ bs := by
  -- the bytes behind the first have their highest bit set
  have htail : ∀ k, UInt8.ofNat (0x80 + k % 2 ^ 6) ≠ 0 := fun k =>
    ofNat_ne_zero (by omega) (by omega)
  unfold utf8
  split
  · refine ⟨[], UInt8.ofNat n, rfl, ⟨fun h => ?_, fun h => by rw [h]; rfl⟩, List.not_mem_nil⟩
    by_contra hne
    exact ofNat_ne_zero (Nat.pos_of_ne_zero hne) (by omega) h
  split
  · have hhead : UInt8.ofNat (0xc0 + n / 2 ^ 6) ≠ 0 := ofNat_ne_zero (by omega) (by omega)
    exact ⟨[_], _, rfl, iff_of_false (htail n) (by omega),
      List.not_mem_cons_of_ne_of_not_mem hhead.symm List.not_mem_nil⟩
  · have hhead : UInt8.ofNat (0xe0 + n / 2 ^ 12) ≠ 0 := ofNat_ne_zero (by omega) (by omega)
    exact ⟨[_, _], _, rfl, iff_of_false (htail n) (by omega),
      List.not_mem_cons_of_ne_of_not_mem hhead.symm
        (List.not_mem_cons_of_ne_of_not_mem (htail _).symm List.not_mem_nil)⟩

theorem shortByte_ne_zero {e b : UInt8} (h : shortByte e = some b) : b ≠ 0 := by
  unfold shortByte at h
  split_ifs at h with hself
  · cases h
    rcases hself with rfl | rfl
    · decide
    · decide
  all_goals
    cases h
    decide

theorem StrUnit.Known.last {u : StrUnit} (hu : u.Known) :
    ∃ bs c, u.bytes = bs ++ [c] ∧ (c = 0 ↔ u.Null) ∧ 0 ∉ bs := by
  cases u with
  | raw b => exact ⟨[], b, rfl, Iff.rfl, List.not_mem_nil⟩
  | short e =>
      have hne : escaped e ≠ 0 := by
        obtain ⟨b, hb⟩ := Option.isSome_iff_exists.mp hu
        rw [← eq_escaped_of_shortByte hb]
        exact shortByte_ne_zero hb
      exact ⟨[], escaped e, rfl, iff_of_false hne id, List.not_mem_nil⟩
  | hex h₁ h₂ h₃ h₄ => exact utf8_last (codeUnit_lt h₁ h₂ h₃ h₄)

theorem StrUnit.Known.zero_mem_iff {u : StrUnit} (hu : u.Known) : 0 ∈ u.bytes ↔ u.Null := by
  obtain ⟨bs, c, hbytes, hnull, hbs⟩ := hu.last
  rw [hbytes, List.mem_append, or_iff_right hbs, List.mem_singleton, eq_comm, hnull]

theorem unitwise_append (us vs : List StrUnit) :
    unitwise (us ++ vs) = unitwise us ++ unitwise vs := List.flatMap_append

/-- The last byte is written for the last unit. -/
theorem write_last {us : List StrUnit} {u : StrUnit} (hu : u.Known) (m : Mem) :
    m.write (unitWrites true (unitwise (us ++ [u])).length 0 (us ++ [u]))
      ((unitwise (us ++ [u])).length - 1) = 0 ↔ u.Null := by
  obtain ⟨bs, c, hbytes, hnull, -⟩ := hu.last
  have hall : unitwise (us ++ [u]) = (unitwise us ++ bs) ++ [c] := by
    rw [unitwise_append, List.append_assoc, ← hbytes]
    simp [unitwise]
  rw [write_unitWrites 0 (by rw [hall]; simp; omega) (by omega), hall, ← hnull]
  simp [Mem.blit]

/-- The last unit that is filled in takes in the zero. -/
theorem filled_iff (hover : ¬ Overruns data) :
    (∀ r, Codec.decode.call false 0 data = .ok r → 0 ≤ r.ret →
      ∃ r', Codec.decode.call true (r.ret + 1) data = .ok r' ∧ r'.ret = r.ret ∧
        ∀ m : Mem, m.write r'.writes r.ret.toNat = 0) ↔
      ∀ us u, known (scanned data) = us ++ [u] →
        (known (scanned data)).flatMap StrUnit.text = scanned data → u.Null := by
  simp only [Codec.call, decode_eq, if_neg hover, Except.ok.injEq, forall_eq', exists_eq_left']
  by_cases hall : (known (scanned data)).flatMap StrUnit.text = scanned data
  swap
  · simp [hall]
  have hlast : ∀ n : Nat, ((n : Int) - 1).toNat = n - 1 := fun n => by omega
  have hknown : ∀ u ∈ known (scanned data), u.Known := fun u hu => known_known _ hu
  simp only [hall, if_true, forall_const, true_and, Int.sub_add_cancel, hlast]
  generalize known (scanned data) = us at hknown
  constructor
  · rintro hfill us u rfl
    have hu : u.Known := hknown u (List.mem_append_right _ (List.mem_singleton_self u))
    have hsome : 0 < (unitwise (us ++ [u])).length := by
      rw [unitwise, List.flatMap_append, List.length_append, List.flatMap_singleton]
      exact Nat.add_pos_right _ u.length_bytes_pos
    exact (write_last hu fun _ => 0).mp (hfill (by omega) _)
  · intro hnull hret m
    rcases List.eq_nil_or_concat us with rfl | ⟨us, u, rfl⟩
    · exact absurd hret (by decide)
    rw [List.concat_eq_append] at hknown hnull ⊢
    have hu : u.Known := hknown u (List.mem_append_right _ (List.mem_singleton_self u))
    exact (write_last hu m).mpr (hnull us u rfl)

theorem contract_decode (hpos : 0 < outlen) :
    Contract .decode data outlen ↔ Codec.decode.Keeps data outlen := by
  by_cases hover : Overruns data
  · refine iff_of_false ?_ fun hkeeps => hkeeps.1 hover
    rintro ⟨⟨r, hr, -⟩, -⟩
    rw [Codec.call, decode_eq, if_pos hover] at hr
    cases hr
  refine (and_congr ?_ (filled_iff hover)).trans (and_iff_right hover).symm
  simp only [Codec.call, decode_eq, if_neg hover, Except.ok.injEq, exists_eq_left']
  rw [inBounds_unitWrites hpos]
  simp only [Nat.zero_add]

end

/-- When the codec keeps to its contract.  Below half of `INT_MAX` bytes the encoder never
does. -/
theorem contract_iff (f : Codec) (data : List UInt8) (outlen : Int) (hpos : 0 < outlen)
    (hmax : outlen ≤ INT_MAX) : Contract f data outlen ↔ f.Keeps data outlen := by
  cases f with
  | encode => exact contract_encode hpos hmax
  | decode => exact contract_decode hpos

/-- A line feed between letters. -/
theorem contract_escape : Contract .decode (asciis "a\\nb") 4 := by
  have hknown : known (scanned (asciis "a\\nb")) =
      [.raw (ascii 'a'), .short (ascii 'n'), .raw (ascii 'b'), .raw 0] := by decide +kernel
  refine (contract_iff .decode (asciis "a\\nb") 4 (by decide) (by decide)).mpr
    ⟨by decide +kernel, ?_, ?_⟩
  · rw [hknown]
    intro k b hk
    have hall : ∀ k < 4, ((unitwise (List.take k [.raw (ascii 'a'), .short (ascii 'n'),
        .raw (ascii 'b'), .raw 0])).length : Int) < 4 := by decide +kernel
    exact hall k (List.getElem?_eq_some_iff.mp hk).1
  · rw [hknown]
    intro us u hlast _
    have hu := congrArg List.getLast? hlast
    rw [List.getLast?_concat] at hu
    cases hu
    rfl

/-- The length measured for `a` is one too small for the encoder; the decoder writes `b`
behind a buffer of one byte, and reads the zero as the fourth digit. -/
theorem not_contract :
    ¬ Contract .encode (asciis "a") 1 ∧ ¬ Contract .decode (asciis "ab") 1 ∧
      ¬ Contract .decode (asciis "\\u123") 8 := by
  refine ⟨fun h => ?_, fun h => ?_, fun h => ?_⟩
  · have hmeasured : jstreeStringEncode false 0 (asciis "a") = .ok ⟨1, []⟩ := by decide +kernel
    have hfilled : jstreeStringEncode true 2 (asciis "a") =
        .ok ⟨-1, [(0, [ascii 'a']), (1, [0])]⟩ := by decide +kernel
    obtain ⟨r, hr, hret, -⟩ := h.2 _ hmeasured (by decide)
    cases hfilled.symm.trans hr
    exact absurd hret (by decide)
  · have hfilled : jstreeStringDecode true 1 (asciis "ab") =
        .ok ⟨2, [(0, [ascii 'a']), (1, [ascii 'b']), (2, [0])]⟩ := by decide +kernel
    obtain ⟨r, hr, hbounds⟩ := h.1
    cases hfilled.symm.trans hr
    exact absurd (hbounds (1, [ascii 'b']) (by simp)) (by decide)
  · have hmeasured : jstreeStringDecode false 0 (asciis "\\u123") = .ok ⟨2, []⟩ := by decide +kernel
    have hfilled : jstreeStringDecode true 3 (asciis "\\u123") =
        .ok ⟨2, [(0, [225, 136, 176])]⟩ := by decide +kernel
    obtain ⟨r, hr, -, hzero⟩ := h.2 _ hmeasured (by decide)
    cases hfilled.symm.trans hr
    exact absurd (hzero fun _ => 0) (by decide +kernel)

end AdvVcom.Json
