/-
# `AdvVcom.Initd.Config` — the configuration of `advttyd`

`advttyd` reads one port a line: minor number, device type, address, port index and,
if there is a fifth word, the redundant address.  `paserConfig` is its
`paser_config` on the content of the file.  A string is the list of its characters,
without the zero at its end.

    fgets     at most 255 characters, or up to and with the end of the line
    sscanf    five words of at most 31, 31, 45, 31 and 45 characters
    a line is skipped if it has less than four words, begins with `#`, its number is
    above `CF_MAXPORTS`, or its port index is not positive

**Proved here.**

    every string of an entry is a word of bounded length    (`paserConfig_parsed`)
-/
import AdvVcom.Shared
import AdvVcom.Lib.CStr

namespace AdvVcom

open Lib.CStr

/-! ## The C library -/

/-- The zero at the end of a string. -/
def NUL : Char := '\x00'

def isspace (c : Char) : Bool := c ∈ [' ', '\t', '\n', '\x0b', '\x0c', '\r']

/-- `atoi`: `strtol` stops at the ends of a `long`, and the cast keeps 32 bits. -/
def atoi (s : List Char) : Int :=
  let (neg, digits) : Bool × List Char :=
    match s.dropWhile isspace with
    | '-' :: t => (true, t)
    | '+' :: t => (false, t)
    | t => (false, t)
  let n : Int := (digits.takeWhile Char.isDigit).foldl (fun n c => n * 10 + (c.toNat - 48 : Nat)) 0
  int32 (if neg then max (-n) (-2 ^ 63) else min n (2 ^ 63 - 1))

/-- `fgets` with room for `n` characters: what it reads, and what is left of the file. -/
def fgets : Nat → List Char → List Char × List Char
  | 0, s => ([], s)
  | _ + 1, [] => ([], [])
  | n + 1, c :: s =>
      if c = '\n' then ([c], s)
      else
        let (line, rest) := fgets n s
        (c :: line, rest)

/-- `sscanf` with a format of words `%ns`: the words it reads. -/
def sscanf : List Nat → List Char → List (List Char)
  | [], _ => []
  | n :: ns, s =>
      let s := s.dropWhile isspace
      if s = [] then []
      else
        let word := (s.takeWhile fun c => !isspace c).take n
        word :: sscanf ns (s.drop word.length)

/-! ## `advttyd.c` -/

def CF_MAXPORTS : Nat := 256

/-- `TTYINFO`. -/
structure TtyInfo where
  mptNameidxStr : List Char
  devTypeStr : List Char
  devIpaddrStr : List Char
  devPortidxStr : List Char
  devRedundantIpaddrStr : List Char
  hasRedundantIp : Bool
  devSsl : Bool
  deriving DecidableEq, Repr

/-- The length of a string that fits `CF_MAXSTRLEN`, and of one that fits
`INET6_ADDRSTRLEN`. -/
def STR_MAX : Nat := 31
def ADDR_MAX : Nat := 45

def sslkeyword : List Char := "ssl:".toList

/-- One round of the loop of `paser_config`: the entry of a line, or none if the line is
skipped. -/
def parseLine (confDp : List Char) : Option TtyInfo :=
  match sscanf [STR_MAX, STR_MAX, ADDR_MAX, STR_MAX, ADDR_MAX] (upto NUL confDp) with
  | name :: type :: ip :: port :: more =>
      if name.head? = some '#' ∨ atoi name > CF_MAXPORTS then none
      else
        let ssl : Bool := type.length > 4 ∧ type.take 4 = sslkeyword
        if atoi port ≤ 0 then none
        else some
          { mptNameidxStr := name
            devTypeStr := if ssl then type.drop 4 else type
            devIpaddrStr := ip
            devPortidxStr := port
            devRedundantIpaddrStr := more.head?.getD []
            hasRedundantIp := !more.isEmpty
            devSsl := ssl }
  | _ => none

/-- The loop; each round reads at least one character. -/
def paserLoop : Nat → Nat → List Char → List TtyInfo
  | 0, _, _ => []
  | fuel + 1, nrport, s =>
      if nrport < CF_MAXPORTS ∧ s ≠ [] then
        let (confDp, rest) := fgets 255 s
        match parseLine confDp with
        | none => paserLoop fuel nrport rest
        | some t => t :: paserLoop fuel (nrport + 1) rest
      else []

/-- `paser_config` on a file it could open. -/
def paserConfig (file : List Char) : List TtyInfo := paserLoop file.length 0 file

/-! ## What an entry consists of -/

/-- A word of at most `n` characters. -/
structure Word (n : Nat) (s : List Char) : Prop where
  ne_nil : s ≠ []
  length_le : s.length ≤ n
  solid : ∀ c ∈ s, isspace c = false
  nul : NUL ∉ s

theorem Word.drop {n k : Nat} {s : List Char} (h : Word n s) (hk : k < s.length) :
    Word n (s.drop k) where
  ne_nil := fun he => by
    have hlen := congrArg List.length he
    rw [List.length_drop, List.length_nil] at hlen
    omega
  length_le := Nat.le_trans (by rw [List.length_drop]; omega) h.length_le
  solid := fun c hc => h.solid c (List.mem_of_mem_drop hc)
  nul := fun hm => h.nul (List.mem_of_mem_drop hm)

/-- The words `sscanf` reads are words of the lengths asked for, in their order. -/
theorem sscanf_words {ns : List Nat} {s : List Char} (hn : ∀ n ∈ ns, 0 < n) (hs : NUL ∉ s) :
    List.Forall₂ Word (ns.take (sscanf ns s).length) (sscanf ns s) := by
  induction ns generalizing s with
  | nil => exact .nil
  | cons n ns ih =>
      rw [sscanf]
      simp only
      split
      · exact .nil
      · rename_i hsome
        have hsub : ∀ {c}, c ∈ s.dropWhile isspace → c ∈ s := fun hc =>
          (List.dropWhile_sublist _).mem hc
        have hrest : NUL ∉ s.dropWhile isspace := fun hm => hs (hsub hm)
        rw [List.length_cons, List.take_succ_cons]
        refine .cons ?_ (ih (fun m hm => hn m (List.mem_cons_of_mem _ hm))
          fun hm => hrest (List.mem_of_mem_drop hm))
        have hpos := hn n (List.mem_cons_self ..)
        refine ⟨?_, by rw [List.length_take]; omega, ?_, ?_⟩
        · -- the first character left is not a blank
          cases hd : s.dropWhile isspace with
          | nil => exact absurd hd hsome
          | cons c rest =>
              have hc : isspace c = false := by
                have hne : s.dropWhile isspace ≠ [] := by rw [hd]; exact List.cons_ne_nil _ _
                have hhead := List.head_dropWhile_not isspace hne
                simpa [hd] using hhead
              obtain ⟨m, rfl⟩ : ∃ m, n = m + 1 := ⟨n - 1, by omega⟩
              rw [List.takeWhile_cons_of_pos (by simp [hc]), List.take_succ_cons]
              exact List.cons_ne_nil _ _
        · intro c hc
          have hall := List.all_eq_true.mp List.all_takeWhile c (List.mem_of_mem_take hc)
          simpa using hall
        · intro hm
          exact hrest ((List.takeWhile_sublist _).mem (List.mem_of_mem_take hm))

/-- What `paser_config` guarantees of an entry. -/
structure TtyInfo.Parsed (t : TtyInfo) : Prop where
  name : Word STR_MAX t.mptNameidxStr
  type : Word STR_MAX t.devTypeStr
  addr : Word ADDR_MAX t.devIpaddrStr
  port : Word STR_MAX t.devPortidxStr
  red : t.hasRedundantIp = true → Word ADDR_MAX t.devRedundantIpaddrStr

theorem nul_not_mem_upto (mem : List Char) : NUL ∉ upto NUL mem := by
  intro hm
  have hne := List.all_eq_true.mp List.all_takeWhile NUL hm
  simp at hne

theorem parseLine_parsed {confDp : List Char} {t : TtyInfo} (h : parseLine confDp = some t) :
    t.Parsed := by
  have hlens : ∀ n ∈ [STR_MAX, STR_MAX, ADDR_MAX, STR_MAX, ADDR_MAX], 0 < n := by decide
  have hwords := sscanf_words hlens (nul_not_mem_upto confDp)
  rw [parseLine] at h
  split at h
  · rename_i name type ip port more heq
    rw [heq] at hwords
    simp only [List.length_cons, List.take_succ_cons] at hwords
    obtain ⟨hname, htype, hip, hport, hmore⟩ : Word STR_MAX name ∧ Word STR_MAX type ∧
        Word ADDR_MAX ip ∧ Word STR_MAX port ∧
        List.Forall₂ Word ([ADDR_MAX].take more.length) more := by
      simpa only [List.forall₂_cons] using hwords
    split at h
    · cases h
    split at h
    · cases h
    cases h
    refine ⟨hname, ?_, hip, hport, ?_⟩
    · -- with the keyword there is something behind it
      show Word STR_MAX (if _ then _ else _)
      split
      · rename_i hssl
        exact htype.drop (by simpa using (of_decide_eq_true hssl).1)
      · exact htype
    · intro hred
      cases more with
      | nil => cases hred
      | cons red rest => exact (List.forall₂_cons.mp hmore).1
  · cases h

theorem parseLine_port {confDp : List Char} {t : TtyInfo} (h : parseLine confDp = some t) :
    0 < atoi t.devPortidxStr := by
  rw [parseLine] at h
  split at h
  · split at h
    · cases h
    split at h
    · cases h
    · rename_i hpos
      cases h
      exact Int.not_le.mp hpos
  · cases h

/-- **Every entry of a configuration** is made of words. -/
theorem paserConfig_parsed {file : List Char} {t : TtyInfo} (h : t ∈ paserConfig file) :
    t.Parsed := by
  suffices hloop : ∀ fuel nrport s, t ∈ paserLoop fuel nrport s → t.Parsed from
    hloop _ _ _ h
  intro fuel
  induction fuel with
  | zero => exact fun _ _ hm => nomatch hm
  | succ fuel ih =>
      intro nrport s hm
      rw [paserLoop] at hm
      split at hm
      · simp only at hm
        split at hm
        · exact ih _ _ hm
        · rename_i u hline
          cases List.mem_cons.mp hm with
          | inl he => rw [he]; exact parseLine_parsed hline
          | inr hrest => exact ih _ _ hrest
      · exact nomatch hm

end AdvVcom
