/-
# `AdvVcom.Initd.Lines` — the lines of the configuration

What the configuration file means: one port for each text line with at least four words
that is no comment, whose first word is the number of a port the driver has made and whose
fourth word is a positive number (`confLine`).  What `paser_config` makes of it differs in
several ways:

    a line longer than the buffer is read in pieces, and each piece is taken for a line
    a word longer than its field is read as two words
    the numbers are read by `atoi`, which takes any text for some number
    256 and negative numbers pass for a minor number

None of this matters for a line behind the last entry there is room for, for one that is
skipped because of its first word, or for one without a positive number in it.

**Proved here.**

    the entries are those of the lines' pieces, in order     (`paserLoop_lines`)
    a piece whose first four words fit their fields yields what it stands for, exactly if
    `atoi` agrees with the meaning of its numbers            (`parseLine_iff`)
    a file of lines that can be read is read exactly, if and only if each line is; there is
    no wrong line that makes up for another                  (`lineEntries_of_take`)
-/
import AdvVcom.Initd.Config
import Mathlib.Data.List.TakeWhile

namespace AdvVcom

open Lib.CStr

/-! ## What a line means -/

/-- The lines of a file, each with its end. -/
def textLines : List Char → List (List Char)
  | [] => []
  | c :: s =>
      if c = '\n' then [c] :: textLines s
      else
        match textLines s with
        | [] => [[c]]
        | l :: ls => (c :: l) :: ls

/-- The words of a line. -/
def words (l : List Char) : List (List Char) := (l.splitOnP isspace).filter (· ≠ [])

def VCOM_PORTS : Nat := 256

/-- The number in the name of one of the files `/proc/vcom/advproc%d` that the driver makes. -/
def IsMinor (s : List Char) : Prop := ∃ i < VCOM_PORTS, s = (Nat.repr i).toList

instance (s : List Char) : Decidable (IsMinor s) :=
  inferInstanceAs (Decidable (∃ i < VCOM_PORTS, s = (Nat.repr i).toList))

/-- A decimal number, with or without a sign. -/
def numeral (s : List Char) : Option Int :=
  let (neg, digits) : Bool × List Char :=
    match s with
    | '-' :: t => (true, t)
    | '+' :: t => (false, t)
    | t => (false, t)
  if digits ≠ [] ∧ digits.all Char.isDigit then
    let n : Int := digits.foldl (fun n c => n * 10 + (c.toNat - 48 : Nat)) 0
    some (if neg then -n else n)
  else none

/-- A positive number. -/
def IsIndex (s : List Char) : Prop := (numeral s).any (0 < ·) = true

instance (s : List Char) : Decidable (IsIndex s) :=
  inferInstanceAs (Decidable ((numeral s).any (0 < ·) = true))

/-- The entry a line stands for. -/
def confLine (l : List Char) : Option TtyInfo :=
  match words l with
  | name :: type :: ip :: port :: more =>
      if name.head? ≠ some '#' ∧ IsMinor name ∧ IsIndex port then
        let ssl : Bool := type.take 4 = sslkeyword
        some
          { mptNameidxStr := name
            devTypeStr := if ssl then type.drop 4 else type
            devIpaddrStr := ip
            devPortidxStr := port
            devRedundantIpaddrStr := more.head?.getD []
            hasRedundantIp := !more.isEmpty
            devSsl := ssl }
      else none
  | _ => none

/-- The entries are those of the lines, and each has its file, so that `spawn_ttyp` gets to
the end of the list. -/
def Exact (file : List Char) : Prop :=
  paserConfig file = ((textLines file).filterMap confLine).take CF_MAXPORTS ∧
    ∀ t ∈ paserConfig file, IsMinor t.mptNameidxStr

instance (file : List Char) : Decidable (Exact file) :=
  inferInstanceAs (Decidable (_ ∧ ∀ t ∈ paserConfig file, IsMinor t.mptNameidxStr))

/-! ## Lines and pieces -/

/-- The pieces in which `fgets` reads a line. -/
def pieces (l : List Char) : List (List Char) :=
  if l = [] then [] else l.take 255 :: pieces (l.drop 255)
  termination_by l.length
  decreasing_by
    rename_i hne
    have := List.length_pos_iff.mpr hne
    rw [List.length_drop]
    omega

/-- The entries made while a line is read. -/
def lineEntries (l : List Char) : List TtyInfo := (pieces l).filterMap parseLine

/-- No end of line, or only one, at the end. -/
def Unbroken (l : List Char) : Prop := '\n' ∉ l.dropLast

/-- The first line and the others. -/
theorem textLines_append {l s : List Char} (hl : l ≠ []) (hone : Unbroken l)
    (hend : l.getLast? = some '\n' ∨ s = []) : textLines (l ++ s) = l :: textLines s := by
  induction l with
  | nil => exact absurd rfl hl
  | cons c l ih =>
      cases l with
      | nil =>
          rcases hend with hend | rfl
          · have hc : c = '\n' := by simpa using hend
            simp [textLines, hc]
          · by_cases hc : c = '\n'
            · simp [textLines, hc]
            · simp [textLines, hc]
      | cons d l =>
          have hc : c ≠ '\n' := by
            rintro rfl
            exact hone (by simp)
          have hrest := ih (List.cons_ne_nil _ _) (fun hm => hone (by simp [hm]))
            (hend.imp_left fun h => by simpa using h)
          rw [List.cons_append, textLines, if_neg hc, hrest]

/-- Every file that is not empty starts with a line. -/
theorem exists_line {s : List Char} (h : s ≠ []) : ∃ l rest, s = l ++ rest ∧ l ≠ [] ∧ Unbroken l ∧
    (l.getLast? = some '\n' ∨ rest = []) := by
  induction s with
  | nil => exact absurd rfl h
  | cons c s ih =>
      by_cases hc : c = '\n'
      · exact ⟨[c], s, rfl, List.cons_ne_nil _ _, by simp [Unbroken], Or.inl (by simp [hc])⟩
      by_cases hs : s = []
      · exact ⟨[c], [], by simp [hs], List.cons_ne_nil _ _, by simp [Unbroken], Or.inr rfl⟩
      obtain ⟨l, rest, rfl, hl, hone, hend⟩ := ih hs
      refine ⟨c :: l, rest, rfl, List.cons_ne_nil _ _, ?_, ?_⟩
      · unfold Unbroken
        rw [List.dropLast_cons_of_ne_nil hl, List.mem_cons]
        rintro (he | hm)
        · exact hc he.symm
        · exact hone hm
      · refine hend.imp_left fun hend => ?_
        rw [List.getLast?_cons_of_ne_nil hl]
        exact hend

theorem Unbroken.tail {c : Char} {l : List Char} (h : Unbroken (c :: l)) : Unbroken l := by
  cases l with
  | nil => simp [Unbroken]
  | cons d l => exact fun hm => h (List.mem_cons_of_mem c hm)

/-- `fgets` reads a line, or the first piece of it. -/
theorem fgets_append {n : Nat} {l s : List Char} (hone : Unbroken l)
    (hend : l.getLast? = some '\n' ∨ s = []) : fgets n (l ++ s) = (l.take n, l.drop n ++ s) := by
  induction n generalizing l with
  | zero => simp [fgets]
  | succ n ih =>
      cases l with
      | nil =>
          have hs : s = [] := by simpa using hend
          simp [hs, fgets]
      | cons c l =>
          rw [List.cons_append, fgets]
          split
          · rename_i hc
            have hl : l = [] := by
              by_contra hl
              refine hone ?_
              rw [List.dropLast_cons_of_ne_nil hl, hc]
              exact List.mem_cons_self
            simp [hl]
          · rename_i hc
            have hend' : l.getLast? = some '\n' ∨ s = [] := by
              cases l with
              | nil => exact Or.inr (hend.resolve_left (by simpa using hc))
              | cons d l => exact hend.imp_left fun h => by simpa using h
            rw [ih hone.tail hend']
            rfl

/-- The lines of what is left behind the first piece of a line. -/
theorem textLines_drop {l s : List Char} (n : Nat) (hone : Unbroken l)
    (hend : l.getLast? = some '\n' ∨ s = []) :
    (textLines (l.drop n ++ s)).flatMap lineEntries =
      lineEntries (l.drop n) ++ (textLines s).flatMap lineEntries := by
  by_cases hl : l.drop n = []
  · rw [hl, List.nil_append, lineEntries, pieces, if_pos rfl]
    rfl
  · have hone' : Unbroken (l.drop n) := by
      intro hm
      refine hone ?_
      rw [← List.take_append_drop n l, List.dropLast_append_of_ne_nil hl]
      exact List.mem_append_right _ hm
    have hend' : (l.drop n).getLast? = some '\n' ∨ s = [] := by
      refine hend.imp_left fun h => ?_
      rw [List.getLast?_drop, if_neg (by simpa using hl)]
      exact h
    rw [textLines_append hl hone' hend', List.flatMap_cons]

/-- **The loop of `paser_config`** makes the entries of the lines, up to its limit. -/
theorem paserLoop_lines {fuel nrport : Nat} {s : List Char} (hfuel : s.length ≤ fuel) :
    paserLoop fuel nrport s =
      ((textLines s).flatMap lineEntries).take (CF_MAXPORTS - nrport) := by
  induction fuel generalizing nrport s with
  | zero =>
      have hs : s = [] := List.length_eq_zero_iff.mp (Nat.le_zero.mp hfuel)
      simp [hs, paserLoop, textLines]
  | succ fuel ih =>
      rw [paserLoop]
      split
      · rename_i hgo
        obtain ⟨l, rest, rfl, hl, hone, hend⟩ := exists_line hgo.2
        have hpos := List.length_pos_iff.mpr hl
        have hlen : (l.drop 255 ++ rest).length ≤ fuel := by
          rw [List.length_append, List.length_drop]
          rw [List.length_append] at hfuel
          omega
        have hroom : CF_MAXPORTS - nrport = CF_MAXPORTS - (nrport + 1) + 1 := by omega
        rw [fgets_append hone hend, textLines_append hl hone hend, List.flatMap_cons, lineEntries, pieces,
          if_neg hl]
        simp only [List.filterMap_cons]
        cases parseLine (l.take 255) with
        | none =>
            simp only [ih hlen, textLines_drop 255 hone hend]
            rfl
        | some t =>
            simp only [ih hlen, textLines_drop 255 hone hend]
            rw [hroom, List.cons_append, List.take_succ_cons]
            rfl
      · rename_i hstop
        by_cases hs : s = []
        · simp [hs, textLines]
        · have hfull : CF_MAXPORTS - nrport = 0 := by
            by_contra hne
            exact hstop ⟨by omega, hs⟩
          rw [hfull, List.take_zero]

/-! ## Words -/

theorem words_cons_space {c : Char} (hc : isspace c = true) (s : List Char) :
    words (c :: s) = words s := by
  have hsplit : ([] ++ c :: s).splitOnP isspace = [] :: s.splitOnP isspace :=
    List.splitOnP_append_cons_of_forall_mem (by simp) c hc s
  rw [List.nil_append] at hsplit
  simp [words, hsplit]

theorem words_dropWhile (s : List Char) : words (s.dropWhile isspace) = words s := by
  induction s with
  | nil => rfl
  | cons c s ih =>
      rw [List.dropWhile_cons]
      split
      · rename_i hc
        rw [ih, words_cons_space hc]
      · rfl

/-- The first word and the rest of the line. -/
theorem words_solid {w s : List Char} (hw : w ≠ []) (hsolid : ∀ c ∈ w, isspace c = false)
    (hs : ∀ c, s.head? = some c → isspace c = true) : words (w ++ s) = w :: words s := by
  cases s with
  | nil =>
      have hsplit : w.splitOnP isspace = [w] :=
        List.splitOnP_eq_singleton fun c hc => by simp [hsolid c hc]
      simp [words, hsplit, hw]
  | cons c s =>
      have hc := hs c rfl
      have hsplit : (w ++ c :: s).splitOnP isspace = w :: s.splitOnP isspace :=
        List.splitOnP_append_cons_of_forall_mem (fun c hc => by simp [hsolid c hc]) c hc s
      rw [words_cons_space hc]
      simp [words, hsplit, hw]

/-- What a line begins with that begins with no blank, and what is left of it. -/
theorem takeWhile_solid {t : List Char} (hne : t ≠ []) (hhead : isspace (t.head hne) = false) :
    t.takeWhile (fun c => !isspace c) ≠ [] ∧
      (∀ c ∈ t.takeWhile (fun c => !isspace c), isspace c = false) ∧
      ∀ c, (t.dropWhile fun c => !isspace c).head? = some c → isspace c = true := by
  refine ⟨?_, fun c hc => ?_, fun c hc => ?_⟩
  · cases t with
    | nil => exact absurd rfl hne
    | cons c t =>
        rw [List.takeWhile_cons_of_pos (by simpa using hhead)]
        exact List.cons_ne_nil _ _
  · simpa using List.all_eq_true.mp List.all_takeWhile c hc
  · have hrest : t.dropWhile (fun c => !isspace c) ≠ [] := by
      intro hnil
      rw [hnil] at hc
      cases hc
    have hnot := List.head_dropWhile_not (fun c => !isspace c) hrest
    rw [List.head?_eq_some_head hrest] at hc
    cases hc
    simpa using hnot

/-- A line that begins with a word. -/
theorem words_takeWhile {t : List Char} (hne : t ≠ []) (hhead : isspace (t.head hne) = false) :
    words t = t.takeWhile (fun c => !isspace c) :: words (t.dropWhile fun c => !isspace c) := by
  obtain ⟨hword, hsolid, hrest⟩ := takeWhile_solid hne hhead
  conv_lhs => rw [← List.takeWhile_append_dropWhile (p := fun c => !isspace c) (l := t)]
  exact words_solid hword hsolid hrest

theorem mem_of_mem_words {l w : List Char} {c : Char} (hw : w ∈ words l) (hc : c ∈ w) : c ∈ l := by
  have hsplit : ∀ w ∈ l.splitOnP isspace, c ∈ w → c ∈ l := by
    clear hw hc
    induction l with
    | nil => simp
    | cons d l ih =>
        intro w hw hc
        rw [List.splitOnP_cons_eq_if_modifyHead] at hw
        split at hw
        · rcases List.mem_cons.mp hw with rfl | hw
          · cases hc
          · exact List.mem_cons_of_mem d (ih w hw hc)
        · obtain ⟨v, vs, hv⟩ := List.exists_cons_of_ne_nil (List.splitOnP_ne_nil isspace l)
          rw [hv] at hw ih
          rcases List.mem_cons.mp hw with rfl | hw
          · rcases List.mem_cons.mp hc with rfl | hc
            · exact List.mem_cons_self
            · exact List.mem_cons_of_mem d (ih v List.mem_cons_self hc)
          · exact List.mem_cons_of_mem d (ih w (List.mem_cons_of_mem v hw) hc)
  exact hsplit w (List.mem_filter.mp hw).1 hc

/-! ## Fields -/

/-- A blank is no NUL. -/
theorem upto_dropWhile (s : List Char) :
    (upto NUL s).dropWhile isspace = upto NUL (s.dropWhile isspace) := by
  induction s with
  | nil => rfl
  | cons c s ih =>
      by_cases hnul : c = NUL
      · rw [hnul, List.dropWhile_cons_of_neg (by decide)]
        simp [upto]
      have hcons : upto NUL (c :: s) = c :: upto NUL s :=
        List.takeWhile_cons_of_pos (by simpa using hnul)
      by_cases hc : isspace c = true
      · rw [hcons, List.dropWhile_cons_of_pos hc, List.dropWhile_cons_of_pos hc, ih]
      · rw [List.dropWhile_cons_of_neg hc, hcons, List.dropWhile_cons_of_neg hc]

/-- A line with a word begins with blanks and that word. -/
theorem exists_word {s w : List Char} {ws : List (List Char)} (h : words s = w :: ws) :
    ∃ rest, s.dropWhile isspace = w ++ rest ∧ words rest = ws ∧ (∀ c ∈ w, isspace c = false) ∧
      (∀ c, rest.head? = some c → isspace c = true) ∧ w ≠ [] := by
  rw [← words_dropWhile] at h
  have hne : s.dropWhile isspace ≠ [] := by
    intro hnil
    rw [hnil] at h
    cases h
  have hhead : isspace ((s.dropWhile isspace).head hne) = false := by
    simpa using List.head_dropWhile_not isspace hne
  generalize s.dropWhile isspace = t at *
  rw [words_takeWhile hne hhead] at h
  obtain ⟨rfl, rfl⟩ := List.cons.inj h
  obtain ⟨hword, hsolid, hrest⟩ := takeWhile_solid hne hhead
  exact ⟨_, List.takeWhile_append_dropWhile.symm, rfl, hsolid, hrest, hword⟩

/-- The text of a word and what follows, up to the first NUL. -/
theorem upto_word {w rest : List Char} (hsolid : ∀ c ∈ w, isspace c = false)
    (hrest : ∀ c, rest.head? = some c → isspace c = true) :
    (upto NUL (w ++ rest)).takeWhile (fun c => !isspace c) = upto NUL w := by
  have hw : (w ++ rest).takeWhile (fun c => !isspace c) = w := by
    rw [List.takeWhile_append_of_pos fun c hc => by simp [hsolid c hc]]
    cases rest with
    | nil => simp
    | cons c rest => rw [List.takeWhile_cons_of_neg (by simp [hrest c rfl]), List.append_nil]
  have hboth := List.takeWhile_takeWhile (· ≠ NUL) (fun c => !isspace c) (w ++ rest)
  rw [hw] at hboth
  unfold upto
  rw [List.takeWhile_takeWhile, hboth]
  simp only [and_comm]

/-- The first field of a line that has a word. -/
theorem sscanf_head (n : Nat) (ns : List Nat) {s w : List Char} {ws : List (List Char)}
    (h : words s = w :: ws) : sscanf (n :: ns) (upto NUL s) = [] ∨
      ∃ more, sscanf (n :: ns) (upto NUL s) = (upto NUL w).take n :: more := by
  obtain ⟨rest, hs, -, hsolid, hrest, -⟩ := exists_word h
  rw [sscanf]
  simp only [upto_dropWhile, hs, upto_word hsolid hrest]
  split
  · exact Or.inl rfl
  · exact Or.inr ⟨_, rfl⟩

/-- `sscanf` reads words, as long as each fits its field and has no NUL in it; and it goes on
behind them. -/
theorem sscanf_words_append {ns : List Nat} (ms : List Nat) {s : List Char}
    (h : ∀ p ∈ ns.zip (words s), p.2.length ≤ p.1 ∧ NUL ∉ p.2) :
    ∃ rest, words rest = (words s).drop ns.length ∧
      sscanf (ns ++ ms) (upto NUL s) = (words s).take ns.length ++ sscanf ms (upto NUL rest) := by
  induction ns generalizing s with
  | nil => exact ⟨s, rfl, rfl⟩
  | cons n ns ih =>
      cases hwords : words s with
      | nil =>
          -- a blank line
          have hblank : s.dropWhile isspace = [] := by
            by_contra hne
            have hhead := List.head_dropWhile_not isspace hne
            have hsome := words_takeWhile hne (by simpa using hhead)
            rw [words_dropWhile, hwords] at hsome
            cases hsome
          refine ⟨[], rfl, ?_⟩
          have hnone (ks : List Nat) : sscanf ks (upto NUL []) = [] := by
            cases ks with
            | nil => rfl
            | cons k ks => rfl
          rw [hnone, List.cons_append, sscanf]
          simp only [upto_dropWhile, hblank]
          rfl
      | cons w ws =>
          obtain ⟨rest, hs, hmore, hsolid, hrest, hne⟩ := exists_word hwords
          rw [hwords] at h
          obtain ⟨hlen, hnul⟩ := h (n, w) List.mem_cons_self
          have htext : upto NUL w = w := by
            refine List.takeWhile_eq_self_iff.mpr fun c hc => ?_
            have hc' : c ≠ NUL := fun he => hnul (he ▸ hc)
            simpa using hc'
          have hsplit : upto NUL (w ++ rest) = w ++ upto NUL rest := by
            unfold upto
            rw [List.takeWhile_append_of_pos fun c hc => ?_]
            have hc' : c ≠ NUL := fun he => hnul (he ▸ hc)
            simpa using hc'
          obtain ⟨last, hlast, hscan⟩ := ih (s := rest) fun p hp => h p (by
            rw [hmore] at hp
            exact List.mem_cons_of_mem _ hp)
          refine ⟨last, by rw [hlast, hmore]; rfl, ?_⟩
          rw [List.cons_append, sscanf]
          simp only [upto_dropWhile, hs, upto_word hsolid hrest, htext]
          rw [if_neg (by simp [hsplit, hne]), List.take_of_length_le hlen, hsplit, List.drop_left, hscan,
            hmore]
          rfl

/-- What is in a field is in the text. -/
theorem mem_of_mem_sscanf {ns : List Nat} {s w : List Char} {c : Char} (hw : w ∈ sscanf ns s)
    (hc : c ∈ w) : c ∈ s := by
  induction ns generalizing s with
  | nil => cases hw
  | cons n ns ih =>
      rw [sscanf] at hw
      simp only at hw
      split at hw
      · cases hw
      have hsub {c : Char} (hc : c ∈ s.dropWhile isspace) : c ∈ s := (List.dropWhile_sublist _).mem hc
      rcases List.mem_cons.mp hw with rfl | hw
      · exact hsub ((List.takeWhile_sublist _).mem (List.mem_of_mem_take hc))
      · exact hsub (List.mem_of_mem_drop (ih hw))

/-! ## Lines that are read as what they are -/

/-- Nothing in it passes for a positive number. -/
def Unnumbered (q : List Char) : Prop := ∀ c ∈ q, c.isDigit = true → c = '0'

/-- The first word, as far as its field goes, makes it a comment or a port that is not there. -/
def Skipped (q : List Char) : Prop :=
  ∃ name ∈ (words q).head?,
    name.head? = some '#' ∨ atoi ((upto NUL name).take STR_MAX) > CF_MAXPORTS

/-- The first four words fit their fields, and no NUL is in them. -/
def Readable (q : List Char) : Prop :=
  ∀ p ∈ [STR_MAX, STR_MAX, ADDR_MAX, STR_MAX].zip (words q), p.2.length ≤ p.1 ∧ NUL ∉ p.2

def Tractable (q : List Char) : Prop := Unnumbered q ∨ Skipped q ∨ Readable q

/-- What the tests on the words of a line come to is what the words mean, and the redundant
address fits its field. -/
def Sound : List (List Char) → Prop
  | name :: type :: _ :: port :: more =>
      name.head? = some '#' ∨ atoi name > CF_MAXPORTS ∨
        (0 < atoi port ∧ IsMinor name ∧ IsIndex port ∧ type ≠ sslkeyword ∧
          ∀ red ∈ more.head?, red.length ≤ ADDR_MAX ∧ NUL ∉ red) ∨
        (atoi port ≤ 0 ∧ ¬ (IsMinor name ∧ IsIndex port))
  | _ => True

theorem lineEntries_short {l : List Char} (h : l.length ≤ 255) :
    lineEntries l = (parseLine l).toList := by
  by_cases hl : l = []
  · rw [lineEntries, pieces, if_pos hl, hl]
    rfl
  · have hdrop : l.drop 255 = [] := List.drop_eq_nil_of_le h
    rw [lineEntries, pieces, if_neg hl, hdrop, pieces, if_pos rfl, List.take_of_length_le h]
    cases hparse : parseLine l with
    | none => simp [hparse]
    | some t => simp [hparse]

/-- The fifth field and the fifth word. -/
theorem last_field (rest : List Char) :
    (sscanf [ADDR_MAX] (upto NUL rest)).head?.getD [] = (words rest).head?.getD [] ∧
      (sscanf [ADDR_MAX] (upto NUL rest)).isEmpty = (words rest).isEmpty ↔
    ∀ red ∈ (words rest).head?, red.length ≤ ADDR_MAX ∧ NUL ∉ red := by
  have hread (h : ∀ p ∈ [ADDR_MAX].zip (words rest), p.2.length ≤ p.1 ∧ NUL ∉ p.2) :
      sscanf [ADDR_MAX] (upto NUL rest) = (words rest).take 1 := by
    obtain ⟨last, -, hscan⟩ := sscanf_words_append [] h
    rw [List.append_nil] at hscan
    rw [hscan, sscanf, List.append_nil]
    rfl
  cases hwords : words rest with
  | nil =>
      rw [hread (by simp [hwords]), hwords]
      simp
  | cons red more =>
      constructor
      · rintro ⟨hhead, hsome⟩ red' hred
        obtain rfl : red = red' := by simpa using hred
        have hfields : List.Forall₂ Word ([ADDR_MAX].take (sscanf [ADDR_MAX] (upto NUL rest)).length)
            (sscanf [ADDR_MAX] (upto NUL rest)) := sscanf_words (by decide) (nul_not_mem_upto rest)
        cases hscan : sscanf [ADDR_MAX] (upto NUL rest) with
        | nil =>
            rw [hscan] at hsome
            cases hsome
        | cons w ws =>
            rw [hscan] at hfields hhead
            obtain rfl : w = red := by simpa using hhead
            have hword : Word ADDR_MAX w := (by simpa using hfields : Word ADDR_MAX w ∧ ws = []).1
            exact ⟨hword.length_le, hword.nul⟩
      · intro hfits
        rw [hread (by simpa [hwords] using hfits), hwords]
        simp

/-- The keyword with something behind it, or nothing but the keyword. -/
theorem ssl_eq {type : List Char} (h : type ≠ sslkeyword) :
    decide (type.length > 4 ∧ type.take 4 = sslkeyword) = decide (type.take 4 = sslkeyword) := by
  refine decide_eq_decide.mpr ⟨And.right, fun hkey => ⟨?_, hkey⟩⟩
  by_contra hlen
  rw [List.take_of_length_le (by omega)] at hkey
  exact h hkey

/-- The value that `strtol` gathers from the digits of a number. -/
theorem foldl_toDigits (n : Nat) :
    (Nat.toDigits 10 n).foldl (fun (m : Int) c => m * 10 + (c.toNat - 48 : Nat)) 0 = n := by
  have hcast : ∀ (m : Nat) (c : Char), (m : Int) * 10 + (c.toNat - 48 : Nat) =
      ((10 * m + (c.toNat - '0'.toNat) : Nat) : Int) := by
    intro m c
    rw [Nat.mul_comm]
    rfl
  refine (List.foldl_hom (fun m : Nat => (m : Int)) hcast).trans ?_
  exact congrArg Nat.cast Nat.ofDigitChars_ten_toDigits

theorem isspace_of_isDigit {c : Char} (hc : c.isDigit = true) : isspace c = false := by
  have hnot : ∀ c ∈ [' ', '\t', '\n', '\x0b', '\x0c', '\r'], c.isDigit = false :=
    forall_mem_of_all (by decide)
  refine decide_eq_false fun hmem => ?_
  rw [hnot c hmem] at hc
  cases hc

/-- A number written in decimal is read as what it is, if an `int` has room for it. -/
theorem atoi_repr {n : Nat} (hn : n < 2 ^ 31) : atoi (Nat.repr n).toList = n := by
  have hdigit : ∀ c ∈ Nat.toDigits 10 n, c.isDigit = true :=
    fun c hc => Nat.isDigit_of_mem_toDigits (by decide) (by decide) hc
  have hvalue := foldl_toDigits n
  rw [← List.takeWhile_eq_self_iff.mpr hdigit] at hvalue
  rw [Nat.toList_repr]
  cases hs : Nat.toDigits 10 n with
  | nil => exact absurd hs Nat.toDigits_ne_nil
  | cons c s =>
      rw [hs] at hdigit hvalue
      have hc := hdigit c List.mem_cons_self
      have hspace := isspace_of_isDigit hc
      have hminus : c ≠ '-' := fun he => absurd (he ▸ hc) (by decide)
      have hplus : c ≠ '+' := fun he => absurd (he ▸ hc) (by decide)
      rw [atoi, List.dropWhile_cons_of_neg (Bool.eq_false_iff.mp hspace)]
      split
      rename_i neg digits hsign
      -- the first digit is no sign
      split at hsign
      · rename_i t heq
        exact absurd (List.cons.inj heq).1 hminus
      · rename_i t heq
        exact absurd (List.cons.inj heq).1 hplus
      cases hsign
      simp only [hvalue, int32, Bool.false_eq_true, if_false]
      rw [Int.bmod_eq_of_le]
      all_goals omega

theorem IsMinor.atoi_le {s : List Char} (h : IsMinor s) : atoi s ≤ CF_MAXPORTS := by
  obtain ⟨i, hi, rfl⟩ := h
  have hports : VCOM_PORTS ≤ CF_MAXPORTS := by decide
  rw [atoi_repr (Nat.lt_trans hi (by decide))]
  exact Int.ofNat_le.mpr (Nat.le_trans (Nat.le_of_lt hi) hports)

/-- Three digits at most. -/
theorem IsMinor.word {s : List Char} (h : IsMinor s) : s.length ≤ STR_MAX ∧ upto NUL s = s := by
  have hall : ∀ i < VCOM_PORTS, (Nat.repr i).toList.length ≤ STR_MAX ∧
      upto NUL (Nat.repr i).toList = (Nat.repr i).toList := by
    decide +kernel
  obtain ⟨i, hi, rfl⟩ := h
  exact hall i hi

/-- Zeros come to 0. -/
theorem foldl_zeros {ds : List Char} (hdigit : ∀ c ∈ ds, c.isDigit = true)
    (h : ∀ c ∈ ds, c.isDigit = true → c = '0') :
    ds.foldl (fun (n : Int) c => n * 10 + (c.toNat - 48 : Nat)) 0 = 0 := by
  induction ds with
  | nil => rfl
  | cons c ds ih =>
      obtain rfl := h c List.mem_cons_self (hdigit c List.mem_cons_self)
      exact ih (fun c hc => hdigit c (List.mem_cons_of_mem _ hc))
        fun c hc => h c (List.mem_cons_of_mem _ hc)

theorem Unnumbered.atoi_eq {s : List Char} (h : Unnumbered s) : atoi s = 0 := by
  rw [atoi]
  split
  rename_i neg digits hsign
  have hsub {c : Char} (hc : c ∈ s.dropWhile isspace) : c ∈ s := (List.dropWhile_sublist _).mem hc
  have hdigits : ∀ c ∈ digits, c ∈ s := by
    intro c hc
    split at hsign
    · rename_i t heq
      cases hsign
      exact hsub (heq ▸ List.mem_cons_of_mem _ hc)
    · rename_i t heq
      cases hsign
      exact hsub (heq ▸ List.mem_cons_of_mem _ hc)
    · cases hsign
      exact hsub hc
  have hzero : (digits.takeWhile Char.isDigit).foldl
      (fun (n : Int) c => n * 10 + (c.toNat - 48 : Nat)) 0 = 0 :=
    foldl_zeros (fun c hc => List.all_eq_true.mp List.all_takeWhile c hc)
      fun c hc => h c (hdigits c ((List.takeWhile_sublist _).mem hc))
  rw [hzero]
  cases neg with
  | true => rfl
  | false => rfl

theorem Unnumbered.not_isIndex {s : List Char} (h : Unnumbered s) : ¬ IsIndex s := by
  have hnone (neg : Bool) {ds : List Char} (hds : ∀ c ∈ ds, c.isDigit = true → c = '0') :
      ¬ (if ds ≠ [] ∧ ds.all Char.isDigit then
          let n : Int := ds.foldl (fun n c => n * 10 + (c.toNat - 48 : Nat)) 0
          some (if neg then -n else n)
        else none : Option Int).any (0 < ·) = true := by
    split
    · rename_i hall
      have hzero := foldl_zeros (fun c hc => List.all_eq_true.mp hall.2 c hc) hds
      simp only [hzero]
      cases neg with
      | true => decide
      | false => decide
    · simp
  unfold IsIndex numeral
  split
  rename_i neg digits hsign
  refine hnone neg fun c hc => h c ?_
  split at hsign
  · cases hsign
    exact List.mem_cons_of_mem _ hc
  · cases hsign
    exact List.mem_cons_of_mem _ hc
  · cases hsign
    exact hc

/-- A line without a positive number. -/
theorem parseLine_unnumbered {q : List Char} (h : Unnumbered q) :
    parseLine q = none ∧ confLine q = none := by
  constructor
  · rw [parseLine]
    split
    · rename_i name type ip port more hscan
      have hmem : port ∈ sscanf [STR_MAX, STR_MAX, ADDR_MAX, STR_MAX, ADDR_MAX] (upto NUL q) := by
        rw [hscan]
        simp
      have hport : Unnumbered port := fun c hc =>
        h c ((List.takeWhile_sublist _).mem (mem_of_mem_sscanf hmem hc))
      rw [hport.atoi_eq]
      simp
    · rfl
  · rw [confLine]
    split
    · rename_i name type ip port more hwords
      have hport : Unnumbered port := fun c hc => h c (mem_of_mem_words (by rw [hwords]; simp) hc)
      exact if_neg fun hm => hport.not_isIndex hm.2.2
    · rfl

/-- A line that begins with `#`, or with a number above all ports. -/
theorem parseLine_skipped {q : List Char} (h : Skipped q) : parseLine q = none ∧ confLine q = none := by
  obtain ⟨name, hname, hskip⟩ := h
  cases hwords : words q with
  | nil => simp [hwords] at hname
  | cons w ws =>
      obtain rfl : w = name := by simpa [hwords] using hname
      have hword := (exists_word hwords).choose_spec.2.2.2.2
      have hskip' : ((upto NUL w).take STR_MAX).head? = some '#' ∨
          atoi ((upto NUL w).take STR_MAX) > CF_MAXPORTS := by
        refine hskip.imp_left fun hhash => ?_
        obtain ⟨t, rfl⟩ : ∃ t, w = '#' :: t := by
          cases w with
          | nil => cases hhash
          | cons c t =>
              cases hhash
              exact ⟨t, rfl⟩
        simp [upto, STR_MAX, NUL]
      constructor
      · rw [parseLine]
        rcases sscanf_head STR_MAX [STR_MAX, ADDR_MAX, STR_MAX, ADDR_MAX] hwords with
          hscan | ⟨more, hscan⟩
        · rw [hscan]
        · rw [hscan]
          rcases more with _ | ⟨type, _ | ⟨ip, _ | ⟨port, more⟩⟩⟩
          · rfl
          · rfl
          · rfl
          · exact if_pos hskip'
      · have hnot : ¬ (w.head? ≠ some '#' ∧ IsMinor w) := by
          rintro ⟨hhash, hminor⟩
          have habove := hskip.resolve_left hhash
          obtain ⟨hlen, hnul⟩ := hminor.word
          rw [hnul, List.take_of_length_le hlen] at habove
          exact absurd hminor.atoi_le (Int.not_le.mpr habove)
        rw [confLine, hwords]
        rcases ws with _ | ⟨type, _ | ⟨ip, _ | ⟨port, more⟩⟩⟩
        · rfl
        · rfl
        · rfl
        · exact if_neg fun hm => hnot ⟨hm.1, hm.2.1⟩

/-- The fields of a line whose first four words can be read. -/
theorem sscanf_readable {q : List Char} (h : Readable q) : ∃ last,
    sscanf [STR_MAX, STR_MAX, ADDR_MAX, STR_MAX, ADDR_MAX] (upto NUL q) = (words q).take 4 ++ last ∧
      (last.head?.getD [] = ((words q).drop 4).head?.getD [] ∧
          last.isEmpty = ((words q).drop 4).isEmpty ↔
        ∀ red ∈ ((words q).drop 4).head?, red.length ≤ ADDR_MAX ∧ NUL ∉ red) := by
  obtain ⟨rest, hrest, hscan⟩ := sscanf_words_append [ADDR_MAX] h
  have hlast := last_field rest
  rw [hrest] at hlast
  exact ⟨_, hscan, hlast⟩

/-- **One line**, or one piece. -/
theorem parseLine_iff {q : List Char} (h : Readable q) : parseLine q = confLine q ↔ Sound (words q) := by
  obtain ⟨last, hscan, hlast⟩ := sscanf_readable h
  rw [parseLine, hscan, confLine]
  clear hscan h
  generalize words q = ws at *
  rcases ws with _ | ⟨name, _ | ⟨type, _ | ⟨ip, _ | ⟨port, more⟩⟩⟩⟩
  case cons.cons.cons.cons =>
    simp only [List.drop_succ_cons, List.drop_zero] at hlast
    simp only [Sound, ← hlast, List.take_succ_cons, List.take_zero, List.cons_append, List.nil_append]
    by_cases hcomment : name.head? = some '#'
    · simp [hcomment]
    by_cases habove : atoi name > CF_MAXPORTS
    · have hnot : ¬ IsMinor name := fun hminor => absurd hminor.atoi_le (Int.not_le.mpr habove)
      simp [hcomment, habove, hnot]
    rw [if_neg (by simp [hcomment, habove])]
    by_cases hport : atoi port ≤ 0
    · by_cases hmeant : IsMinor name ∧ IsIndex port
      · simp [hcomment, habove, hport, hmeant]
      · simp [hcomment, habove, hport, hmeant]
    · have hpos : 0 < atoi port := Int.not_le.mp hport
      by_cases hmeant : IsMinor name ∧ IsIndex port
      · by_cases htype : type = sslkeyword
        · subst htype
          simp [hcomment, habove, hport, hpos, hmeant, sslkeyword]
        · simp [hcomment, habove, hport, hpos, hmeant, htype, ssl_eq htype]
      · simp only [hcomment, habove, hport, hpos, hmeant, false_or, true_and, or_false,
          not_false_eq_true, ne_eq, and_true, if_false, reduceCtorEq, false_iff]
        exact fun hm => hmeant ⟨hm.1, hm.2.1⟩
  -- with less than four words there is no fifth field
  all_goals
    obtain rfl : last = [] := by simpa using (hlast.mpr (by simp)).2
    simp [Sound]

/-! ## The file -/

theorem confLine_minor {l : List Char} {t : TtyInfo} (h : confLine l = some t) :
    IsMinor t.mptNameidxStr := by
  rw [confLine] at h
  split at h
  · split at h
    · rename_i hmeant
      cases h
      exact hmeant.2.1
    · cases h
  · cases h

/-- A piece that can be read comes out as what it stands for, exactly if the tests on its
words come to what they mean. -/
theorem Tractable.parseLine_iff {q : List Char} (h : Tractable q) :
    parseLine q = confLine q ↔ (Readable q → Sound (words q)) := by
  have hnone (hq : parseLine q = none ∧ confLine q = none) :
      parseLine q = confLine q ↔ (Readable q → Sound (words q)) := by
    have hsame : parseLine q = confLine q := hq.1.trans hq.2.symm
    exact iff_of_true hsame fun hread => (AdvVcom.parseLine_iff hread).mp hsame
  rcases h with h | h | h
  · exact hnone (parseLine_unnumbered h)
  · exact hnone (parseLine_skipped h)
  · exact (AdvVcom.parseLine_iff h).trans ⟨fun hsound _ => hsound, fun hsound => hsound h⟩

/-- An entry has the words of its line. -/
theorem confLine_some {l : List Char} {t : TtyInfo} (h : confLine l = some t) : ∃ type ip more,
    words l = t.mptNameidxStr :: type :: ip :: t.devPortidxStr :: more ∧
      t.mptNameidxStr.head? ≠ some '#' ∧ IsMinor t.mptNameidxStr ∧ IsIndex t.devPortidxStr := by
  rw [confLine] at h
  split at h
  · rename_i name type ip port more hwords
    split at h
    · rename_i hmeant
      cases h
      exact ⟨type, ip, more, hwords, hmeant⟩
    · cases h
  · cases h

/-- And so has what `paser_config` makes of a line it can read. -/
theorem parseLine_some {q : List Char} {t : TtyInfo} (hread : Readable q) (h : parseLine q = some t) :
    ∃ type ip more, words q = t.mptNameidxStr :: type :: ip :: t.devPortidxStr :: more ∧
      t.mptNameidxStr.head? ≠ some '#' := by
  obtain ⟨last, hscan, hlast⟩ := sscanf_readable hread
  rw [parseLine, hscan] at h
  clear hscan hread
  generalize words q = ws at *
  rcases ws with _ | ⟨name, _ | ⟨type, _ | ⟨ip, _ | ⟨port, more⟩⟩⟩⟩
  case cons.cons.cons.cons =>
    simp only [List.take_succ_cons, List.take_zero, List.cons_append, List.nil_append] at h
    split at h
    · cases h
    rename_i hskip
    split at h
    · cases h
    cases h
    exact ⟨type, ip, more, rfl, fun hhash => hskip (Or.inl hhash)⟩
  all_goals
    obtain rfl : last = [] := by simpa using (hlast.mpr (by simp)).2
    cases h

/-- What is made of a line that stands for no entry is the entry of no other line. -/
theorem not_meant {q l : List Char} {t : TtyInfo} (hq : Tractable q) (hparse : parseLine q = some t)
    (hconf : confLine q = none) : confLine l ≠ some t := by
  intro hl
  have hread : Readable q := by
    rcases hq with h | h | h
    · exact absurd hparse (by simp [(parseLine_unnumbered h).1])
    · exact absurd hparse (by simp [(parseLine_skipped h).1])
    · exact h
  obtain ⟨type, ip, more, hwords, hhash⟩ := parseLine_some hread hparse
  obtain ⟨-, -, -, -, -, hminor, hindex⟩ := confLine_some hl
  rw [confLine, hwords] at hconf
  simp only [hhash, hminor, hindex, ne_eq, not_false_eq_true, and_self, if_true] at hconf
  cases hconf

/-- An entry that is not made of its own line is made of no other. -/
theorem not_made {q l : List Char} {t : TtyInfo} (hq : Tractable q) (hconf : confLine q = some t)
    (hparse : parseLine q = none) : parseLine l ≠ some t := by
  intro hl
  have hread : Readable q := by
    rcases hq with h | h | h
    · exact absurd hconf (by simp [(parseLine_unnumbered h).2])
    · exact absurd hconf (by simp [(parseLine_skipped h).2])
    · exact h
  have hpos := parseLine_port hl
  obtain ⟨type, ip, more, hwords, hhash, hminor, -⟩ := confLine_some hconf
  obtain ⟨last, hscan, -⟩ := sscanf_readable hread
  rw [parseLine, hscan, hwords] at hparse
  have hskip : ¬ (t.mptNameidxStr.head? = some '#' ∨ atoi t.mptNameidxStr > CF_MAXPORTS) := by
    rintro (h | h)
    · exact hhash h
    · exact absurd hminor.atoi_le (Int.not_le.mpr h)
  simp only [List.take_succ_cons, List.take_zero, List.cons_append, List.nil_append, if_neg hskip,
    if_neg (Int.not_le.mpr hpos)] at hparse
  cases hparse

/-! ## The lines that are read -/

/-- The lines with fewer than `n` entries in front of them. -/
def linesRead : Nat → List (List Char) → List (List Char)
  | 0, _ => []
  | _ + 1, [] => []
  | n + 1, l :: ls => l :: linesRead (if (confLine l).isSome then n else n + 1) ls

/-- Where each line that is read yields its entry, the list is right. -/
theorem take_flatMap_lines {n : Nat} {ls : List (List Char)}
    (h : ∀ l ∈ linesRead n ls, lineEntries l = (confLine l).toList) :
    (ls.flatMap lineEntries).take n = (ls.filterMap confLine).take n := by
  induction ls generalizing n with
  | nil => rfl
  | cons l ls ih =>
      cases n with
      | zero => simp
      | succ n =>
          have hl := h l List.mem_cons_self
          have hrest := ih fun k hk => h k (List.mem_cons_of_mem l hk)
          rw [List.flatMap_cons, hl]
          cases hconf : confLine l with
          | none =>
              rw [hconf] at hrest
              rw [List.filterMap_cons_none hconf]
              exact hrest
          | some t =>
              rw [hconf] at hrest
              rw [List.filterMap_cons_some hconf]
              exact congrArg (t :: ·) hrest

/-- And where each of them can be read, a right list comes only from right lines. -/
theorem lineEntries_of_take {n : Nat} {ls : List (List Char)}
    (h : ∀ l ∈ linesRead n ls, l.length ≤ 255 ∧ Tractable l)
    (hsame : (ls.flatMap lineEntries).take n = (ls.filterMap confLine).take n) :
    ∀ l ∈ linesRead n ls, parseLine l = confLine l := by
  induction ls generalizing n with
  | nil =>
      intro l hl
      cases n with
      | zero => cases hl
      | succ n => cases hl
  | cons l ls ih =>
      cases n with
      | zero =>
          intro l hl
          cases hl
      | succ n =>
          obtain ⟨hshort, htract⟩ := h l List.mem_cons_self
          have hrest := ih fun k hk => h k (List.mem_cons_of_mem l hk)
          rw [List.flatMap_cons, lineEntries_short hshort] at hsame
          -- the first line that is wrong shows in the list
          have hl : parseLine l = confLine l := by
            cases hparse : parseLine l with
            | none =>
                cases hconf : confLine l with
                | none => rfl
                | some m =>
                    rw [hparse, List.filterMap_cons_some hconf, List.take_succ_cons] at hsame
                    have hm : m ∈ ls.flatMap lineEntries :=
                      List.mem_of_mem_take (hsame ▸ List.mem_cons_self)
                    obtain ⟨k, -, hk⟩ := List.mem_flatMap.mp hm
                    obtain ⟨piece, -, hpiece⟩ := List.mem_filterMap.mp hk
                    exact absurd hpiece (not_made htract hconf hparse)
            | some t =>
                rw [hparse] at hsame
                cases hconf : confLine l with
                | none =>
                    rw [List.filterMap_cons_none hconf] at hsame
                    have ht : t ∈ (ls.filterMap confLine).take (n + 1) := by
                      rw [← hsame]
                      exact List.mem_cons_self
                    obtain ⟨k, -, hk⟩ := List.mem_filterMap.mp (List.mem_of_mem_take ht)
                    exact absurd hk (not_meant htract hparse hconf)
                | some m =>
                    rw [List.filterMap_cons_some hconf] at hsame
                    exact congrArg some (List.cons.inj hsame).1
          intro k hk
          rcases List.mem_cons.mp hk with rfl | hk
          · exact hl
          · refine hrest ?_ k hk
            rw [hl] at hsame
            cases hconf : confLine l with
            | none =>
                rw [hconf, List.filterMap_cons_none hconf] at hsame
                exact hsame
            | some m =>
                rw [hconf, List.filterMap_cons_some hconf] at hsame
                exact (List.cons.inj hsame).2

/-- Cut into the pieces that `fgets` reads, the line stands for the same. -/
def Seamless (l : List Char) : Prop := (pieces l).filterMap confLine = (confLine l).toList

theorem exact_of_lines {file : List Char}
    (h : ∀ l ∈ linesRead CF_MAXPORTS (textLines file), lineEntries l = (confLine l).toList) :
    Exact file := by
  have hentries : paserConfig file = ((textLines file).filterMap confLine).take CF_MAXPORTS :=
    (paserLoop_lines (Nat.le_refl _)).trans (take_flatMap_lines h)
  refine ⟨hentries, fun t ht => ?_⟩
  rw [hentries] at ht
  obtain ⟨l, -, hl⟩ := List.mem_filterMap.mp (List.mem_of_mem_take ht)
  exact confLine_minor hl

/-- A minor number one too large, a long comment that ends in four words, and a device type
that is too long for its field. -/
def oddFiles : List (List Char) :=
  ["256 5210 10.0.0.1 1\n".toList,
    '#' :: List.replicate 254 '-' ++ " 1 5210 10.0.0.1 1\n".toList,
    "1 ".toList ++ List.replicate 40 'x' ++ " 10.0.0.1 1\n".toList]

example : Exact ('#' :: List.replicate 40 '-' ++
    "\n0 ssl:5210 10.0.0.1 1\n255 5210 10.0.0.1 2 10.0.0.2\n300 5210\n\n".toList) := by
  decide +kernel

end AdvVcom
