/-
# `AdvVcom.Json.Decode` — the string decoder

`jstree_string_decode` goes through a string with a scanner of its own.  It does not know `\/`,
which the tokenizer lets through, and it takes each `\u` unit for itself, so that a surrogate
pair comes out as two characters.

It looks at the zero behind the string as well, and at as many bytes as an `int` can count.

**Proved here.**

    the decoder goes through the units it knows                (`decode_eq`)
    it gives up at `\/`                                        (`decodedBytes_slash`)
    a longer string than an `int` can count is not understood  (`decodedBytes_of_long`)
    it gives the value exactly if there is no `\/` and no pair,
    and an `int` holds the length                              (`understood_iff`)
-/
import AdvVcom.Json.Strings
import AdvVcom.Lib.Snprintf
import Mathlib.Data.List.TakeWhile

namespace AdvVcom.Json

open Lib Lib.CStr Lib.Snprintf

/-! ## The decoder -/

/-- The bytes the decoder makes of the number behind `\u`.  It has 16 bits, so that the branch for
four bytes is never taken. -/
def unitBytes (u : Nat) : List UInt8 :=
  if u < 0x80 then [UInt8.ofNat u]
  else if u < 0x800 then
    [UInt8.ofNat (0xc0 ||| ((u &&& 0x7c0) >>> 6)), UInt8.ofNat (0x80 ||| (u &&& 0x3f))]
  else
    [UInt8.ofNat (0xe0 ||| ((u &&& 0xf000) >>> 12)), UInt8.ofNat (0x80 ||| ((u &&& 0xfc0) >>> 6)),
      UInt8.ofNat (0x80 ||| (u &&& 0x3f))]

/-- The escapes of one character the decoder knows. -/
def shortByte (e : UInt8) : Option UInt8 :=
  if e = ascii '\\' ∨ e = ascii '"' then some e
  else if e = ascii 't' then some 9
  else if e = ascii 'r' then some 13
  else if e = ascii 'n' then some 10
  else if e = ascii 'b' then some 8
  else if e = ascii 'f' then some 12
  else none

/-- What a call returns, and the bytes it wrote where. -/
structure Coded where
  ret : Int
  writes : List (Nat × List UInt8)
  deriving DecidableEq

/-- `bs` is written at `ptr`, if at all, before what `r` writes. -/
def Coded.put (cond : Bool) (ptr : Nat) (bs : List UInt8) (r : Coded) : Coded :=
  { r with writes := if cond then (ptr, bs) :: r.writes else r.writes }

section
variable (out : Bool) (outlen : Int)

/-- The loop of `jstree_string_decode` from the byte with the index `i` on, the zero of the
data included.  Only the bytes of an escape are checked against `outlen`.  Of the sums only
`i + 5` can be more than an `int` holds: `memlen` is one. -/
def decodeLoop : Nat → Nat → List UInt8 → Except Fault Coded
  | _, ptr, [] => .ok ⟨(ptr : Int) - 1, []⟩
  | i, ptr, c :: s =>
      if c ≠ ascii '\\' then
        Coded.put (out && outlen ≠ 0) ptr [c] <$> decodeLoop (i + 1) (ptr + 1) s
      else
        match s with
        | [] => .ok ⟨-1, []⟩
        | e :: s =>
            match shortByte e with
            | some b =>
                Coded.put (out && outlen ≠ 0 && ptr < outlen) ptr [b] <$>
                  decodeLoop (i + 2) (ptr + 1) s
            | none =>
                if e = ascii 'u' then
                  match s with
                  | h₁ :: h₂ :: h₃ :: h₄ :: s => do
                      let _ ← int ((i : Int) + 5)
                      let bs := unitBytes (codeUnit h₁ h₂ h₃ h₄)
                      Coded.put (out && outlen ≠ 0 && (ptr + bs.length - 1 : Nat) < outlen) ptr bs <$>
                        decodeLoop (i + 6) (ptr + bs.length) s
                  | _ => do
                      -- `i + 5 >= memlen`
                      let _ ← int ((i : Int) + 5)
                      .ok ⟨-1, []⟩
                else .ok ⟨-1, []⟩

end

/-- `int memlen = strlen(data) + 1`: a `size_t` made an `int`. -/
def memlen (data : List UInt8) : Int := Int.bmod (data.length + 1) (2 ^ 32)

/-- The bytes a loop up to `memlen` goes through. -/
def scanned (data : List UInt8) : List UInt8 := (data ++ [0]).take (memlen data).toNat

/-- `out` says whether there is a buffer. -/
def jstreeStringDecode (out : Bool) (outlen : Int) (data : List UInt8) : Except Fault Coded :=
  decodeLoop out outlen 0 0 (scanned data)

/-- The length is measured, and a buffer with room for it and a zero then gets the value. -/
def Understood (body : List UInt8) : Prop :=
  ∃ r, jstreeStringDecode false 0 body = .ok r ∧ 0 ≤ r.ret ∧
    ∃ r', jstreeStringDecode true (r.ret + 1) body = .ok r' ∧
      ∀ m : Mem, (m.write r'.writes).slice 0 (r.ret.toNat + 1) = value (units body) ++ [0]

/-! ## The bytes of a unit -/

/-- The `i` bits of `k` above the lowest `j`, with `a` put above them. -/
theorem or_bits (a i j k : Nat) :
    (2 ^ i * a ||| ((k &&& ((2 ^ i - 1) <<< j)) >>> j)) = 2 ^ i * a + k / 2 ^ j % 2 ^ i := by
  rw [Nat.shiftRight_and_distrib, Nat.shiftLeft_shiftRight, Nat.and_two_pow_sub_one_eq_mod,
    Nat.shiftRight_eq_div_pow, Nat.two_pow_add_eq_or_of_lt (Nat.mod_lt _ (Nat.two_pow_pos i))]

theorem unitBytes_eq_utf8 {u : Nat} (hu : u < 0x10000) : unitBytes u = utf8 u := by
  have hlow : (0x80 ||| (u &&& 0x3f)) = 0x80 + u % 2 ^ 6 := by simpa using or_bits 2 6 0 u
  unfold unitBytes utf8
  split
  · rfl
  split
  · have htop : (0xc0 ||| ((u &&& 0x7c0) >>> 6)) = 0xc0 + u / 2 ^ 6 % 2 ^ 5 := or_bits 6 5 6 u
    rw [htop, hlow, Nat.mod_eq_of_lt (by omega)]
  · have htop : (0xe0 ||| ((u &&& 0xf000) >>> 12)) = 0xe0 + u / 2 ^ 12 % 2 ^ 4 := or_bits 14 4 12 u
    have hmid : (0x80 ||| ((u &&& 0xfc0) >>> 6)) = 0x80 + u / 2 ^ 6 % 2 ^ 6 := or_bits 2 6 6 u
    rw [htop, hmid, hlow, Nat.mod_eq_of_lt (by omega : u / 2 ^ 12 < 2 ^ 4)]

/-! ## What the decoder makes of it -/

section
variable {out : Bool} {outlen : Int} {u : StrUnit} {us : List StrUnit}

/-- The unit the decoder does not know. -/
def slash : StrUnit := .short (ascii '/')

/-- The decoder takes whatever stands behind `\u` for digits. -/
def StrUnit.Known : StrUnit → Prop
  | .raw b => b ≠ ascii '\\'
  | .short e => (shortByte e).isSome
  | .hex _ _ _ _ => True

instance : DecidablePred StrUnit.Known
  | .raw b => inferInstanceAs (Decidable (b ≠ ascii '\\'))
  | .short e => inferInstanceAs (Decidable ((shortByte e).isSome = true))
  | .hex _ _ _ _ => inferInstanceAs (Decidable True)

/-- Whether the bytes of a unit are written. -/
def StrUnit.fits (out : Bool) (outlen : Int) (ptr : Nat) : StrUnit → Bool
  | .raw _ => out && outlen ≠ 0
  | u => out && outlen ≠ 0 && (ptr + u.bytes.length - 1 : Nat) < outlen

/-- What is written of the units from `ptr` on. -/
def unitWrites (out : Bool) (outlen : Int) : Nat → List StrUnit → List (Nat × List UInt8)
  | _, [] => []
  | ptr, u :: us =>
      (if u.fits out outlen ptr then [(ptr, u.bytes)] else []) ++
        unitWrites out outlen (ptr + u.bytes.length) us

theorem eq_escaped_of_shortByte {e b : UInt8} (h : shortByte e = some b) : b = escaped e := by
  unfold shortByte at h
  split_ifs at h with hself ht hr hn hb hf
  · cases h
    rcases hself with rfl | rfl
    · rfl
    · rfl
  · cases h
    rw [ht]
    rfl
  · cases h
    rw [hr]
    rfl
  · cases h
    rw [hn]
    rfl
  · cases h
    rw [hb]
    rfl
  · cases h
    rw [hf]
    rfl

theorem shortByte_isSome {e : UInt8} (he : e ∈ shortEscapes) (hne : e ≠ ascii '/') :
    (shortByte e).isSome := by
  have hall : ∀ e ∈ shortEscapes, e ≠ ascii '/' → (shortByte e).isSome :=
    forall_mem_of_all (by decide)
  exact hall e he hne

/-- Of the units the tokenizer lets through the decoder knows all but one. -/
theorem StrUnit.Ok.known (hu : u.Ok) (hne : u ≠ slash) : u.Known := by
  cases u with
  | raw b => exact hu.2.2
  | short e => exact shortByte_isSome hu fun he => hne (congrArg StrUnit.short he)
  | hex h₁ h₂ h₃ h₄ => trivial

theorem StrUnit.Known.apart (hu : u.Known) : u.Apart := by
  cases u with
  | raw b => exact hu
  | short e =>
      rintro rfl
      exact absurd (show (shortByte (ascii 'u')).isSome from hu) (by decide)
  | hex h₁ h₂ h₃ h₄ => trivial

theorem decodeLoop_unit (hu : u.Known) {i : Nat} (hi : ((i + u.text.length : Nat) : Int) ≤ INT_MAX)
    (ptr : Nat) (s : List UInt8) :
    decodeLoop out outlen i ptr (u.text ++ s) =
      Coded.put (u.fits out outlen ptr) ptr u.bytes <$>
        decodeLoop out outlen (i + u.text.length) (ptr + u.bytes.length) s := by
  cases u with
  | raw b =>
      rw [decodeLoop.eq_def]
      exact if_pos hu
  | short e =>
      obtain ⟨b, hb⟩ := Option.isSome_iff_exists.mp hu
      rw [decodeLoop.eq_def]
      simp only [StrUnit.text, List.cons_append, List.nil_append, ne_eq, not_true_eq_false,
        if_false, hb, eq_escaped_of_shortByte hb]
      rfl
  | hex h₁ h₂ h₃ h₄ =>
      have hnone : shortByte (ascii 'u') = none := by decide
      have hbytes := unitBytes_eq_utf8 (codeUnit_lt h₁ h₂ h₃ h₄)
      have hint : int ((i : Int) + 5) = .ok ((i : Int) + 5) := by
        simp only [StrUnit.text, List.length_cons, List.length_nil] at hi
        exact int_ok (by unfold INT_MAX; omega) (by omega)
      rw [decodeLoop.eq_def]
      simp only [StrUnit.text, List.cons_append, List.nil_append, ne_eq, not_true_eq_false,
        if_false, hnone, if_true, hbytes, hint, ok_bind]
      rfl

/-- What `r` writes comes behind `ws`. -/
def Coded.behind (ws : List (Nat × List UInt8)) (r : Coded) : Coded :=
  { r with writes := ws ++ r.writes }

/-- The decoder goes through the units it knows. -/
theorem decodeLoop_units (hknown : ∀ u ∈ us, u.Known) {i : Nat}
    (hi : ((i + (us.flatMap StrUnit.text).length : Nat) : Int) ≤ INT_MAX) (ptr : Nat)
    (rest : List UInt8) :
    decodeLoop out outlen i ptr (us.flatMap StrUnit.text ++ rest) =
      Coded.behind (unitWrites out outlen ptr us) <$>
        decodeLoop out outlen (i + (us.flatMap StrUnit.text).length)
          (ptr + (unitwise us).length) rest := by
  induction us generalizing i ptr with
  | nil => exact (id_map _).symm
  | cons u us ih =>
      obtain ⟨hu, hus⟩ := List.forall_mem_cons.mp hknown
      have hlen : ptr + (unitwise (u :: us)).length =
          ptr + u.bytes.length + (unitwise us).length := by
        rw [unitwise, List.flatMap_cons, List.length_append, Nat.add_assoc]
        rfl
      rw [List.flatMap_cons, List.length_append, ← Nat.add_assoc] at hi
      rw [List.flatMap_cons, List.append_assoc, decodeLoop_unit hu (by omega), ih hus hi,
        Functor.map_map, hlen, List.length_append, ← Nat.add_assoc]
      congr 1
      funext r
      simp only [Coded.put, Coded.behind, unitWrites]
      split
      · rfl
      · rfl

theorem decodeLoop_nil (i ptr : Nat) :
    decodeLoop out outlen i ptr [] = .ok ⟨(ptr : Int) - 1, []⟩ := by
  rw [decodeLoop.eq_def]

/-- The units the decoder goes through. -/
def known (s : List UInt8) : List StrUnit := (units s).takeWhile fun u => u.Known

theorem known_known (s : List UInt8) (hu : u ∈ known s) : u.Known := by
  have := List.mem_takeWhile_imp hu
  exact of_decide_eq_true this

theorem known_text (hu : u.Known) (s : List UInt8) : known (u.text ++ s) = u :: known s := by
  unfold known
  rw [units_text hu.apart]
  exact List.takeWhile_cons_of_pos (decide_eq_true hu)

theorem known_flatMap (hknown : ∀ u ∈ us, u.Known) : known (us.flatMap StrUnit.text) = us := by
  induction us with
  | nil => rfl
  | cons u us ih =>
      obtain ⟨hu, hus⟩ := List.forall_mem_cons.mp hknown
      rw [List.flatMap_cons, known_text hu, ih hus]

/-- `\u` with less than four bytes behind it. -/
def CutShort (s : List UInt8) : Prop := [ascii '\\', ascii 'u'] <+: s ∧ s.length < 6

instance (s : List UInt8) : Decidable (CutShort s) :=
  inferInstanceAs (Decidable ([ascii '\\', ascii 'u'] <+: s ∧ s.length < 6))

/-- The decoder does nothing with `s`, but that it may overflow. -/
def Refused (s : List UInt8) : Prop :=
  ∀ out outlen i ptr, decodeLoop out outlen i ptr s =
    if CutShort s ∧ INT_MAX < (i : Int) + 5 then .error .overflow else .ok ⟨-1, []⟩

/-- `s` is the units the decoder goes through and a rest that is refused. -/
def Split (s : List UInt8) : Prop :=
  ∃ rest, s = (known s).flatMap StrUnit.text ++ rest ∧ (rest = [] ∨ Refused rest)

theorem split_text {s : List UInt8} (hu : u.Known) (hs : Split s) : Split (u.text ++ s) := by
  obtain ⟨rest, heq, hrest⟩ := hs
  refine ⟨rest, ?_, hrest⟩
  rw [known_text hu, List.flatMap_cons, List.append_assoc, ← heq]

theorem split_nil {s : List UInt8} (hs : known s = []) (hrest : Refused s) : Split s := by
  refine ⟨s, ?_, .inr hrest⟩
  rw [hs]
  rfl

theorem refused_cut {ds : List UInt8} (hds : ds.length < 4) :
    Refused (ascii '\\' :: ascii 'u' :: ds) := by
  intro out outlen i ptr
  have hcut : CutShort (ascii '\\' :: ascii 'u' :: ds) :=
    ⟨List.prefix_append [ascii '\\', ascii 'u'] ds, Nat.add_lt_add_right hds 2⟩
  have hloop : decodeLoop out outlen i ptr (ascii '\\' :: ascii 'u' :: ds) = (do
      let _ ← int ((i : Int) + 5)
      .ok ⟨-1, []⟩) := by
    rcases ds with _ | ⟨h₁, _ | ⟨h₂, _ | ⟨h₃, _ | ⟨h₄, ds⟩⟩⟩⟩
    · rfl
    · rfl
    · rfl
    · rfl
    · simp only [List.length_cons] at hds
      omega
  rw [hloop]
  by_cases hover : INT_MAX < (i : Int) + 5
  · have herror : int ((i : Int) + 5) = .error .overflow := if_neg fun h => by omega
    rw [herror, if_pos ⟨hcut, hover⟩]
    rfl
  · rw [int_ok (by unfold INT_MAX; omega) (by omega), if_neg fun h => hover h.2]
    rfl

theorem split (s : List UInt8) : Split s := by
  fun_induction units s with
  | case1 => exact ⟨[], rfl, .inl rfl⟩
  | case2 c s hc ih => exact split_text (u := .raw c) hc ih
  | case3 c hc =>
      obtain rfl : c = ascii '\\' := Decidable.not_not.mp hc
      exact split_nil rfl fun _ _ _ _ => rfl
  | case4 c hc h₁ h₂ h₃ h₄ s ih =>
      obtain rfl : c = ascii '\\' := Decidable.not_not.mp hc
      exact split_text (u := .hex h₁ h₂ h₃ h₄) trivial ih
  | case5 c hc s hshort =>
      obtain rfl : c = ascii '\\' := Decidable.not_not.mp hc
      rcases s with _ | ⟨h₁, _ | ⟨h₂, _ | ⟨h₃, _ | ⟨h₄, s⟩⟩⟩⟩
      · exact split_nil rfl (refused_cut (by decide))
      · exact split_nil rfl (refused_cut (by simp))
      · exact split_nil rfl (refused_cut (by simp))
      · exact split_nil rfl (refused_cut (by simp))
      · exact (hshort h₁ h₂ h₃ h₄ s rfl).elim
  | case6 c hc e s he ih =>
      obtain rfl : c = ascii '\\' := Decidable.not_not.mp hc
      by_cases hknown : (StrUnit.short e).Known
      · exact split_text hknown ih
      · refine split_nil ?_ fun out outlen i ptr => ?_
        · have hunits : units (ascii '\\' :: e :: s) = .short e :: units s :=
            units_text (u := .short e) he s
          unfold known
          rw [hunits]
          exact List.takeWhile_cons_of_neg fun h => hknown (of_decide_eq_true h)
        · have hnone : shortByte e = none := Option.not_isSome_iff_eq_none.mp hknown
          have hwhole : ¬ CutShort (ascii '\\' :: e :: s) := fun hcut =>
            he (List.cons_prefix_cons.mp (List.cons_prefix_cons.mp hcut.1).2).1.symm
          rw [decodeLoop.eq_def]
          simp only [ne_eq, not_true_eq_false, if_false, hnone, he, hwhole, false_and]

/-- With room for all of it, the bytes come to stand behind each other. -/
theorem write_unitWrites (ptr : Nat) (hzero : outlen ≠ 0)
    (hroom : ((ptr + (unitwise us).length : Nat) : Int) ≤ outlen) (m : Mem) :
    m.write (unitWrites true outlen ptr us) = m.blit ptr (unitwise us) := by
  induction us generalizing ptr m with
  | nil => simp [unitWrites, unitwise, Mem.write]
  | cons u us ih =>
      have hlen : (unitwise (u :: us)).length = u.bytes.length + (unitwise us).length := by
        rw [unitwise, List.flatMap_cons, List.length_append]
        rfl
      rw [hlen] at hroom
      have hpos : 0 < u.bytes.length := u.length_bytes_pos
      have hfits : u.fits true outlen ptr = true := by
        cases u <;> simp [StrUnit.fits, hzero] <;> omega
      rw [unitWrites, if_pos hfits]
      refine (ih (ptr + u.bytes.length) (by omega) (m.blit ptr u.bytes)).trans ?_
      rw [Mem.blit_blit]
      rfl

end

/-! ## The decoder understands a string -/

section
variable {body : List UInt8}

theorem memlen_eq (hlen : (body.length : Int) < INT_MAX) : memlen body = body.length + 1 := by
  unfold INT_MAX at hlen
  unfold memlen
  rw [Int.bmod_def]
  split <;> omega

theorem scanned_eq (hlen : (body.length : Int) < INT_MAX) : scanned body = body ++ [0] := by
  have hall : (memlen body).toNat = (body ++ [0]).length := by
    rw [memlen_eq hlen, List.length_append]
    rfl
  rw [scanned, hall, List.take_length]

theorem memlen_le : memlen body ≤ INT_MAX := by
  unfold memlen INT_MAX
  rw [Int.bmod_def]
  split <;> omega

/-- The length of a longer string wraps around: nothing is gone through, or a part that
leaves out as much as a turn. -/
theorem memlen_wraps (hlen : INT_MAX ≤ body.length) :
    memlen body ≤ 0 ∨ memlen body + 2 ^ 32 ≤ body.length + 1 := by
  unfold INT_MAX at hlen
  unfold memlen
  rw [Int.bmod_def]
  split <;> omega

theorem scanned_wraps (hlen : INT_MAX ≤ body.length) :
    scanned body = body.take (memlen body).toNat := by
  have hle : (memlen body).toNat ≤ body.length := by
    rcases memlen_wraps hlen with hnone | hturn
    · rw [Int.toNat_of_nonpos hnone]
      exact Nat.zero_le _
    · omega
  rw [scanned, List.take_append_of_le_length hle]

theorem length_scanned_le (body : List UInt8) : ((scanned body).length : Int) ≤ INT_MAX := by
  have hle : memlen body ≤ INT_MAX := memlen_le
  have hpos : (0 : Int) ≤ INT_MAX := by decide
  rw [scanned, List.length_take]
  omega

/-- A `\u` that stands so far behind that `i + 5` is not an `int`. -/
def Overruns (body : List UInt8) : Prop :=
  CutShort ((scanned body).drop ((known (scanned body)).flatMap StrUnit.text).length) ∧
    INT_MAX < (((known (scanned body)).flatMap StrUnit.text).length : Int) + 5

instance (body : List UInt8) : Decidable (Overruns body) := inferInstanceAs (Decidable (_ ∧ _))

theorem decodeLoop_split {us : List StrUnit} {rest : List UInt8} (hknown : ∀ u ∈ us, u.Known)
    (hlen : ((us.flatMap StrUnit.text ++ rest).length : Int) ≤ INT_MAX)
    (hrest : rest = [] ∨ Refused rest) (out : Bool) (outlen : Int) :
    decodeLoop out outlen 0 0 (us.flatMap StrUnit.text ++ rest) =
      if CutShort rest ∧ INT_MAX < ((us.flatMap StrUnit.text).length : Int) + 5 then .error .overflow
      else .ok ⟨if rest = [] then ((unitwise us).length : Int) - 1 else -1,
        unitWrites out outlen 0 us⟩ := by
  rw [List.length_append] at hlen
  rw [decodeLoop_units hknown (by omega), Nat.zero_add, Nat.zero_add]
  rcases hrest with rfl | hrefused
  · rw [if_neg fun h => absurd h.1 (by decide), if_pos rfl, decodeLoop_nil]
    simp [Coded.behind]
  · have hne : rest ≠ [] := by
      rintro rfl
      have hret := hrefused out outlen 0 1
      rw [decodeLoop_nil, if_neg fun h => absurd h.1 (by decide)] at hret
      exact absurd (congrArg Coded.ret (Except.ok.inj hret)) (by decide)
    rw [hrefused, if_neg hne]
    split
    · rfl
    · simp [Coded.behind]

/-- The decoder goes through what it knows, and returns a length if that is all. -/
theorem decode_eq (out : Bool) (outlen : Int) (body : List UInt8) :
    jstreeStringDecode out outlen body =
      if Overruns body then .error .overflow
      else .ok ⟨if (known (scanned body)).flatMap StrUnit.text = scanned body then
          ((unitwise (known (scanned body))).length : Int) - 1 else -1,
        unitWrites out outlen 0 (known (scanned body))⟩ := by
  obtain ⟨rest, hs, hrest⟩ := split (scanned body)
  have hdrop : (scanned body).drop ((known (scanned body)).flatMap StrUnit.text).length = rest := by
    have hboth := congrArg (List.drop ((known (scanned body)).flatMap StrUnit.text).length) hs
    rwa [List.drop_left] at hboth
  have hnil : rest = [] ↔ (known (scanned body)).flatMap StrUnit.text = scanned body := by
    constructor
    · rintro rfl
      rw [List.append_nil] at hs
      exact hs.symm
    · intro hall
      rw [← hdrop, hall, List.drop_length]
  have hdecode := decodeLoop_split (fun u hu => known_known _ hu)
    (hs ▸ length_scanned_le body) hrest out outlen
  rw [← hs] at hdecode
  rw [jstreeStringDecode, hdecode]
  by_cases hover : Overruns body
  · rw [if_pos hover, if_pos ⟨hdrop ▸ hover.1, hover.2⟩]
  · rw [if_neg hover, if_neg fun h => hover ⟨hdrop.symm ▸ h.1, h.2⟩]
    simp only [hnil]

/-- The bytes the decoder gives for a text: none if it does not get to the end. -/
def decodedBytes (body : List UInt8) : List UInt8 :=
  if (known (scanned body)).flatMap StrUnit.text = scanned body then unitwise (known (scanned body))
  else []

theorem not_overruns (h : (known (scanned body)).flatMap StrUnit.text = scanned body) :
    ¬ Overruns body := by
  intro hover
  have hcut := hover.1
  rw [h, List.drop_length] at hcut
  exact absurd hcut (by decide)

/-- A buffer for all of the bytes gets them, whatever is in it before. -/
theorem slice_decoded (m : Mem) (body : List UInt8) :
    (m.write (unitWrites true (decodedBytes body).length 0 (known (scanned body)))).slice 0
      (decodedBytes body).length = decodedBytes body := by
  unfold decodedBytes
  split
  · rcases Nat.eq_zero_or_pos (unitwise (known (scanned body))).length with hnone | hpos
    · rw [List.length_eq_zero_iff.mp hnone]
      rfl
    · rw [write_unitWrites 0 (by omega) (by omega), Mem.slice_blit_self]
  · rfl

theorem decode_bytes (hover : ¬ Overruns body) (out : Bool) (outlen : Int) :
    jstreeStringDecode out outlen body =
      .ok ⟨((decodedBytes body).length : Int) - 1, unitWrites out outlen 0 (known (scanned body))⟩ := by
  rw [decode_eq, if_neg hover, decodedBytes]
  split
  · rfl
  · rfl

/-- A string that is gone through to the end. -/
theorem decode_units {us : List StrUnit} (hknown : ∀ u ∈ us, u.Known)
    (hs : scanned body = us.flatMap StrUnit.text) (out : Bool) (outlen : Int) :
    jstreeStringDecode out outlen body =
      .ok ⟨((unitwise us).length : Int) - 1, unitWrites out outlen 0 us⟩ := by
  have hself : known (scanned body) = us := by rw [hs, known_flatMap hknown]
  have hall : (known (scanned body)).flatMap StrUnit.text = scanned body := by rw [hself, hs]
  rw [decode_eq, if_neg (not_overruns hall), if_pos hall, hself]

theorem known_closed {us : List StrUnit} (hknown : ∀ u ∈ us, u.Known) :
    ∀ u ∈ us ++ [.raw 0], u.Known := by
  intro u hu
  rcases List.mem_append.mp hu with hu | hu
  · exact hknown u hu
  · rw [List.mem_singleton.mp hu]
    decide

theorem scanned_closed {us : List StrUnit}
    (hlen : ((us.flatMap StrUnit.text).length : Int) < INT_MAX) :
    scanned (us.flatMap StrUnit.text) = (us ++ [StrUnit.raw 0]).flatMap StrUnit.text := by
  rw [scanned_eq hlen, List.flatMap_append]
  rfl

/-- The zero behind the units is one more. -/
theorem decode_closed {us : List StrUnit} (hknown : ∀ u ∈ us, u.Known)
    (hlen : ((us.flatMap StrUnit.text).length : Int) < INT_MAX) (out : Bool) (outlen : Int) :
    jstreeStringDecode out outlen (us.flatMap StrUnit.text) =
      .ok ⟨(unitwise us).length, unitWrites out outlen 0 (us ++ [.raw 0])⟩ := by
  rw [decode_units (known_closed hknown) (scanned_closed hlen)]
  simp [unitwise, StrUnit.bytes]

theorem write_closed {us : List StrUnit} {outlen : Int}
    (hroom : ((unitwise us).length : Int) + 1 ≤ outlen) (m : Mem) :
    (m.write (unitWrites true outlen 0 (us ++ [.raw 0]))).slice 0 ((unitwise us).length + 1) =
      unitwise us ++ [0] := by
  have hbytes : unitwise (us ++ [.raw 0]) = unitwise us ++ [0] := by
    rw [unitwise, List.flatMap_append]
    rfl
  have hfits : ((0 + (unitwise (us ++ [.raw 0])).length : Nat) : Int) ≤ outlen := by
    rw [hbytes, List.length_append, Nat.zero_add]
    exact hroom
  have hwrite := write_unitWrites 0 (by omega) hfits m
  have hslice := Mem.slice_blit_self m 0 (unitwise us ++ [0])
  rw [List.length_append] at hslice
  rw [hwrite, hbytes]
  exact hslice

/-- The decoder goes through a part of such a string only, if it does. -/
theorem decodedBytes_of_long (h : Accepted body) (hlen : INT_MAX ≤ body.length) :
    decodedBytes body ≠ value (units body) ++ [0] := by
  obtain ⟨htext, -⟩ := accepted_units h
  have hknown := fun u => known_known (u := u) (scanned body)
  unfold decodedBytes
  generalize known (scanned body) = p at hknown
  intro hbytes
  have hsame := congrArg List.length hbytes
  rw [List.length_append, List.length_singleton] at hsame
  split at hsame
  swap
  · cases hsame
  rename_i hs
  have hle := length_unitwise_le p
  rw [scanned_wraps hlen] at hs
  have hp := congrArg List.length hs
  rw [List.length_take] at hp
  rcases memlen_wraps hlen with hnone | hturn
  · omega
  · have hmax : memlen body ≤ INT_MAX := memlen_le
    unfold INT_MAX at hmax
    have hbody : body = p.flatMap StrUnit.text ++ body.drop (memlen body).toNat := by
      rw [hs, List.take_append_drop]
    have hunits := units_flatMap (fun u hu => (hknown u hu).apart) (body.drop (memlen body).toNat)
    rw [← hbody] at hunits
    have hweight := value_weight p (units (body.drop (memlen body).toNat))
    have hall := congrArg List.length htext
    rw [hunits, List.flatMap_append, List.length_append] at hall
    rw [← hunits] at hweight
    omega

theorem units_scanned (h : Accepted body) (hlen : (body.length : Int) < INT_MAX) :
    units (scanned body) = units body ++ [.raw 0] := by
  obtain ⟨htext, hok⟩ := accepted_units h
  have hunits := units_flatMap (fun u hu => (hok u hu).apart) [0]
  rw [htext, ← scanned_eq hlen] at hunits
  exact hunits

/-- At `\/` the decoder gives up. -/
theorem decodedBytes_slash (h : Accepted body) (hlen : (body.length : Int) < INT_MAX)
    (hslash : slash ∈ units body) : decodedBytes body = [] := by
  refine if_neg fun hs => ?_
  have hknown := fun u => known_known (u := u) (scanned body)
  have hunits := units_flatMap (fun u hu => (hknown u hu).apart) []
  rw [List.append_nil, hs, units_scanned h hlen] at hunits
  have hmem : slash ∈ known (scanned body) ++ units [] := by
    rw [← hunits]
    exact List.mem_append_left _ hslash
  rw [show units [] = [] from rfl, List.append_nil] at hmem
  exact absurd (hknown slash hmem) (by decide)

theorem decodedBytes_known (h : Accepted body) (hlen : (body.length : Int) < INT_MAX)
    (hslash : slash ∉ units body) : decodedBytes body = unitwise (units body) ++ [0] := by
  obtain ⟨htext, hok⟩ := accepted_units h
  have hknown := known_closed fun u hu => (hok u hu).known fun heq => hslash (heq ▸ hu)
  have hscanned := scanned_closed (htext.symm ▸ hlen)
  rw [htext] at hscanned
  rw [decodedBytes, hscanned, known_flatMap hknown, if_pos rfl, unitwise, List.flatMap_append]
  rfl

/-- The decoder gives the value of a string that is let through, and its zero, exactly if there
is no `\/` in it and no pair, and an `int` holds its length. -/
theorem decodedBytes_eq_value_iff (h : Accepted body) :
    decodedBytes body = value (units body) ++ [0] ↔
      slash ∉ units body ∧ Unpaired (units body) ∧ (body.length : Int) < INT_MAX := by
  by_cases hlen : (body.length : Int) < INT_MAX
  swap
  · exact iff_of_false (decodedBytes_of_long h (Int.not_lt.mp hlen)) fun hcond => hlen hcond.2.2
  by_cases hslash : slash ∈ units body
  · rw [decodedBytes_slash h hlen hslash]
    exact iff_of_false (by simp) fun hcond => hcond.1 hslash
  · rw [decodedBytes_known h hlen hslash, List.append_left_inj, eq_comm, value_eq_unitwise_iff]
    exact ⟨fun hunpaired => ⟨hslash, hunpaired, hlen⟩, fun hcond => hcond.2.1⟩

/-- A length is measured only of a string that is gone through. -/
theorem understood_iff_bytes :
    Understood body ↔ decodedBytes body = value (units body) ++ [0] := by
  by_cases hover : Overruns body
  · refine iff_of_false ?_ fun hbytes => ?_
    · rintro ⟨r, hr, -⟩
      rw [decode_eq, if_pos hover] at hr
      cases hr
    · rw [decodedBytes, if_neg fun hs => not_overruns hs hover] at hbytes
      simp at hbytes
  simp only [Understood, decode_bytes hover, Except.ok.injEq, exists_eq_left', Int.sub_add_cancel]
  constructor
  · rintro ⟨hpos, hvalue⟩
    have hlast : (((decodedBytes body).length : Int) - 1).toNat + 1 = (decodedBytes body).length := by
      omega
    have hslice := hvalue fun _ => 0
    rwa [hlast, slice_decoded] at hslice
  · intro hbytes
    have hlen := congrArg List.length hbytes
    rw [List.length_append, List.length_singleton] at hlen
    refine ⟨by omega, fun m => ?_⟩
    have hlast : (((decodedBytes body).length : Int) - 1).toNat + 1 = (decodedBytes body).length := by
      omega
    rw [hlast, slice_decoded, hbytes]

end

/-- Of the strings that the tokenizer lets through, the decoder understands those without
`\/` and without a surrogate pair, as long as an `int` holds their length. -/
theorem understood_iff (body : List UInt8) (h : Accepted body) :
    Understood body ↔
      slash ∉ units body ∧ Unpaired (units body) ∧ (body.length : Int) < INT_MAX :=
  understood_iff_bytes.trans (decodedBytes_eq_value_iff h)

/-- An escape for an accented letter. -/
theorem understood_accent : Accepted (asciis "caf\\u00e9") ∧ Understood (asciis "caf\\u00e9") := by
  have haccepted : Accepted (asciis "caf\\u00e9") := by decide +kernel
  refine ⟨haccepted, (understood_iff _ haccepted).mpr ⟨by decide +kernel, ?_, by decide +kernel⟩⟩
  rw [← value_eq_unitwise_iff]
  decide +kernel

/-- A password with `\/` in it is refused, and one with a character beyond the 16 bits comes
out as two halves. -/
theorem not_understood :
    (Accepted (asciis "a\\/b") ∧ ¬ Understood (asciis "a\\/b")) ∧
      Accepted (asciis "\\ud83d\\ude00") ∧ ¬ Understood (asciis "\\ud83d\\ude00") := by
  refine ⟨⟨by decide +kernel, ?_⟩, by decide +kernel, ?_⟩
  · rintro ⟨r, hr, hpos, -⟩
    have hgives : jstreeStringDecode false 0 (asciis "a\\/b") = .ok ⟨-1, []⟩ := by decide +kernel
    cases hgives.symm.trans hr
    exact absurd hpos (by decide)
  · rintro ⟨r, hr, -, r', hr', hvalue⟩
    have hmeasured : jstreeStringDecode false 0 (asciis "\\ud83d\\ude00") = .ok ⟨6, []⟩ := by
      decide +kernel
    cases hmeasured.symm.trans hr
    have hlen := congrArg List.length (hvalue fun _ => 0)
    rw [Mem.length_slice] at hlen
    exact absurd hlen (by decide +kernel)

end AdvVcom.Json
