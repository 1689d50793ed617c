/-
# `AdvVcom.Initd.Sync` — does `advttyd` know its own daemons?

The argument vector of a `vcomd` is the row of its options, a dash, a letter and the
value each (`shellWords_systemArg`).  What `__cmd_get_opts` finds in it for an option
is the first value that has the option's two characters in it, or the option's own
value if that comes first (`optValue_row`).  So it recovers the value exactly if no
value before it is in the way (`Clear`), and then `oldcmd_cmp` tells apart exactly the
entries that differ.

A host name such as `my-printer` is in the way of `-p`: its daemon is killed and
started again every time `advttyd` is run.

**Proved here.**

    what is found in a row of options                       (`optValue_row`)
    a command that does not fit loses its last value        (`row_cut`)
    recovered, and compared exactly, iff fitting and clear  (`sync_exact`)
    entries for which it is not                             (`sync_fails`)
-/
import AdvVcom.Initd.Command

namespace AdvVcom

open Lib.CStr

/-! ## The argument vector -/

/-- An option as an argument. -/
def optArg (f : Char × List Char) : List Char := '-' :: f.1 :: f.2

/-- The options of a command for `t` whose last one has the value `conf`. -/
def TtyInfo.optionsFor (conf : List Char) (t : TtyInfo) : List (Char × List Char) :=
  t.ownOptions ++ (if t.devSsl then [('S', conf)] else [])

def commandText (opts : List (Char × List Char)) : List Char :=
  CF_PORTPROG ++ opts.flatMap fun f => ' ' :: optArg f

theorem createSyscmd_eq (site : Site) (n : Nat) (t : TtyInfo) :
    createSyscmd site n t =
      snprintf n (commandText (t.options site) ++ if t.devSsl then [] else [' ']) := by
  have hl : " -l".toList = [' ', '-', 'l'] := rfl
  have ht : " -t".toList = [' ', '-', 't'] := rfl
  have hd : " -d".toList = [' ', '-', 'd'] := rfl
  have ha : " -a".toList = [' ', '-', 'a'] := rfl
  have hp : " -p".toList = [' ', '-', 'p'] := rfl
  have hr : " -r".toList = [' ', '-', 'r'] := rfl
  have hs : " -S".toList = [' ', '-', 'S'] := rfl
  have hb : " ".toList = [' '] := rfl
  cases hred : t.hasRedundantIp <;> cases hssl : t.devSsl <;>
    simp [createSyscmd, TtyInfo.options, TtyInfo.ownOptions, commandText, optArg, hred, hssl,
      hl, ht, hd, ha, hp, hr, hs, hb]

/-- Words with one blank between them are split there. -/
theorem splitOnP_spaced {w : List Char} {ws : List (List Char)} (hw : ∀ c ∈ w, isspace c = false)
    (hws : ∀ v ∈ ws, ∀ c ∈ v, isspace c = false) :
    (w ++ ws.flatMap (' ' :: ·)).splitOnP isspace = w :: ws := by
  induction ws generalizing w with
  | nil =>
      rw [List.flatMap_nil, List.append_nil]
      exact List.splitOnP_eq_singleton hw
  | cons v ws ih =>
      have hv := hws v (List.mem_cons_self ..)
      have hrest := ih hv fun x hx => hws x (List.mem_cons_of_mem _ hx)
      rw [List.flatMap_cons, List.cons_append]
      rw [List.splitOnP_append_cons_of_forall_mem hw ' ' rfl, hrest]

/-- A string that the shell passes on as it is, and that is not empty. -/
structure Quiet (s : List Char) : Prop where
  ne_nil : s ≠ []
  solid : ∀ c ∈ s, isspace c = false
  amp : '&' ∉ s
  nul : NUL ∉ s

/-- An option with a letter that `_create_syscmd` uses, and such a value. -/
structure Proper (f : Char × List Char) : Prop where
  letter : f.1 ∈ ['l', 't', 'd', 'a', 'p', 'r', 'S']
  value : Quiet f.2

section
variable {s : List Char} {f : Char × List Char} {opts : List (Char × List Char)}

theorem Word.quiet {n : Nat} (h : Word n s) (hplain : ∀ c ∈ s, metachar c = false) :
    Quiet s where
  ne_nil := h.ne_nil
  solid := h.solid
  amp := fun hm => absurd (hplain _ hm) (by decide)
  nul := h.nul

theorem Quiet.append {pre : List Char} (h : Quiet s) (hsolid : ∀ c ∈ pre, isspace c = false)
    (hamp : '&' ∉ pre) (hnul : NUL ∉ pre) : Quiet (pre ++ s) where
  ne_nil := fun he => h.ne_nil (List.append_eq_nil_iff.mp he).2
  solid := fun c hc => (List.mem_append.mp hc).elim (hsolid c) (h.solid c)
  amp := fun hm => (List.mem_append.mp hm).elim hamp h.amp
  nul := fun hm => (List.mem_append.mp hm).elim hnul h.nul

theorem Quiet.take {m : Nat} (h : Quiet s) (hm : 0 < m) : Quiet (s.take m) where
  ne_nil := fun he => by
    cases List.take_eq_nil_iff.mp he with
    | inl hzero => omega
    | inr hnil => exact h.ne_nil hnil
  solid := fun c hc => h.solid c (List.mem_of_mem_take hc)
  amp := fun hx => h.amp (List.mem_of_mem_take hx)
  nul := fun hx => h.nul (List.mem_of_mem_take hx)

theorem Site.quiet_sslconf (site : Site) : Quiet site.sslconf := by
  refine Quiet.append ⟨List.cons_ne_nil _ _, forall_mem_of_all (by decide), by decide, by decide⟩ ?_ ?_ ?_
  · intro c hc
    have hmeta := site.plain c (List.mem_of_mem_take hc)
    exact (Bool.or_eq_false_iff.mp hmeta).1
  · exact fun hm => absurd (site.plain _ (List.mem_of_mem_take hm)) (by decide)
  · exact fun hm => site.nul (List.mem_of_mem_take hm)

theorem Proper.of {c : Char} (hc : c ∈ ['l', 't', 'd', 'a', 'p', 'r', 'S']) (hs : Quiet s) :
    Proper (c, s) := ⟨hc, hs⟩

theorem Proper.quiet_arg (h : Proper f) : Quiet (optArg f) := by
  have hletter : Quiet ['-', f.1] := by
    have hall : ∀ c ∈ ['l', 't', 'd', 'a', 'p', 'r', 'S'],
        isspace c = false ∧ '&' ≠ c ∧ NUL ≠ c := forall_mem_of_all (by decide)
    obtain ⟨hsolid, hamp, hnul⟩ := hall f.1 h.letter
    refine ⟨List.cons_ne_nil _ _, ?_, ?_, ?_⟩
    · simpa using ⟨by decide, hsolid⟩
    · simpa using hamp
    · simpa using ⟨by decide, hnul⟩
  have harg : Quiet (['-', f.1] ++ f.2) :=
    h.value.append hletter.solid hletter.amp hletter.nul
  exact harg

/-- The words of a command. -/
theorem shellWords_text (hopts : ∀ f ∈ opts, Proper f) {pad : List (List Char)}
    (hpad : ∀ v ∈ pad, v = []) {amp : List Char} (hamp : amp.takeWhile (· ≠ '&') = []) :
    shellWords (commandText opts ++ pad.flatMap (' ' :: ·) ++ amp) =
      CF_PORTPROG :: opts.map optArg := by
  have htext : commandText opts ++ pad.flatMap (' ' :: ·) =
      CF_PORTPROG ++ (opts.map optArg ++ pad).flatMap (' ' :: ·) := by
    rw [commandText, List.flatMap_append, List.flatMap_map, List.append_assoc]
  have hnoamp : ∀ c ∈ commandText opts ++ pad.flatMap (' ' :: ·), decide (c ≠ '&') = true := by
    intro c hc
    refine decide_eq_true fun he => ?_
    rw [htext, he] at hc
    cases List.mem_append.mp hc with
    | inl hprog => exact absurd hprog (by decide)
    | inr hrest =>
        obtain ⟨v, hv, hm⟩ := List.mem_flatMap.mp hrest
        cases List.mem_append.mp hv with
        | inl hopt =>
            obtain ⟨f, hf, rfl⟩ := List.mem_map.mp hopt
            cases List.mem_cons.mp hm with
            | inl hblank => exact absurd hblank (by decide)
            | inr harg => exact (hopts f hf).quiet_arg.amp harg
        | inr hp =>
            rw [hpad v hp] at hm
            exact absurd hm (by decide)
  have hsolid : ∀ v ∈ opts.map optArg ++ pad, ∀ c ∈ v, isspace c = false := by
    intro v hv c hc
    cases List.mem_append.mp hv with
    | inl hopt =>
        obtain ⟨f, hf, rfl⟩ := List.mem_map.mp hopt
        exact (hopts f hf).quiet_arg.solid c hc
    | inr hp =>
        rw [hpad v hp] at hc
        exact nomatch hc
  rw [shellWords, List.takeWhile_append_of_pos hnoamp, hamp, List.append_nil, htext,
    splitOnP_spaced (forall_mem_of_all (by decide)) hsolid, List.filter_cons_of_pos (by decide), List.filter_append]
  have hkeep : (opts.map optArg).filter (· ≠ []) = opts.map optArg := by
    refine List.filter_eq_self.mpr fun v hv => ?_
    obtain ⟨f, -, rfl⟩ := List.mem_map.mp hv
    exact decide_eq_true (List.cons_ne_nil _ _)
  have hdrop : pad.filter (· ≠ []) = [] :=
    List.filter_eq_nil_iff.mpr fun v hv => by simp [hpad v hv]
  rw [hkeep, hdrop, List.append_nil]

end

/-! ## What is found in it -/

/-- **The search, argument by argument**, from the one that begins behind `pre`: the
value found is what stands behind the option in the first argument that has it. -/
theorem cmdGetOptsLoop_row {row : List (List Char)} {junk opt cmd : List Char} {cmdlen : Nat}
    (hnul : ∀ a ∈ row, NUL ∉ a) (hopt : ∀ a ∈ row, a ≠ opt) (hne : row ≠ []) :
    ∀ {pre : List Char} {fuel : Nat}, row.length ≤ fuel → cmd = pre ++ (closed NUL row ++ junk) →
      cmdlen = pre.length + (closed NUL row).length →
      (cmdGetOptsLoop cmd cmdlen opt fuel pre.length).map (fun ptr => upto NUL (cmd.drop ptr)) =
        row.findSome? (after opt) := by
  induction row with
  | nil => exact absurd rfl hne
  | cons a row ih =>
      intro pre fuel hfuel hcmd hlen
      obtain ⟨fuel, rfl⟩ : ∃ n, fuel = n + 1 := ⟨fuel - 1, by rw [List.length_cons] at hfuel; omega⟩
      have ha := hnul a (List.mem_cons_self ..)
      rw [closed_cons, List.append_assoc, List.cons_append] at hcmd
      rw [closed_cons, List.length_append, List.length_cons] at hlen
      have hdrop : ∀ k, cmd.drop (pre.length + k) =
          (a ++ NUL :: (closed NUL row ++ junk)).drop k := fun k => by
        rw [hcmd, List.drop_append]
        simp
      have harg : upto NUL (cmd.drop pre.length) = a := by
        have hzero := hdrop 0
        rw [Nat.add_zero, List.drop_zero] at hzero
        rw [hzero, upto_append ha]
      rw [cmdGetOptsLoop, harg, List.findSome?_cons]
      cases hfind : strstr opt a with
      | some k =>
          have hafter : after opt a = some (a.drop (k + opt.length)) := by rw [after, hfind]; rfl
          have hle := strstr_le hfind
          rw [hafter]
          simp only [Option.map_some, if_neg (hopt a (List.mem_cons_self ..))]
          rw [Nat.add_assoc, hdrop, List.drop_append_of_le_length hle,
            upto_append fun hm => ha (List.mem_of_mem_drop hm)]
      | none =>
          have hafter : after opt a = none := by rw [after, hfind]; rfl
          rw [hafter]
          simp only
          cases row with
          | nil =>
              have hend : ¬ pre.length + a.length + 1 < cmdlen := by
                rw [hlen]
                simp [closed]
                omega
              rw [if_neg hend]
              rfl
          | cons b row =>
              have hgo : pre.length + a.length + 1 < cmdlen := by
                rw [hlen, closed_cons, List.length_append, List.length_cons]
                omega
              rw [if_pos hgo]
              have hpre : pre.length + a.length + 1 = (pre ++ a ++ [NUL]).length := by
                simp only [List.length_append, List.length_cons, List.length_nil]
              rw [hpre]
              refine ih (fun x hx => hnul x (List.mem_cons_of_mem _ hx))
                (fun x hx => hopt x (List.mem_cons_of_mem _ hx)) (List.cons_ne_nil _ _)
                (Nat.le_of_succ_le_succ hfuel) ?_ ?_
              · rw [hcmd]
                simp only [List.append_assoc, List.singleton_append]
              · rw [← hpre, hlen]
                omega

/-- The value that `__cmd_get_opts` takes for that of option `-o`, if the option `f` is
where it stops. -/
def hit (o : Char) (f : Char × List Char) : Option (List Char) :=
  if f.1 = o then some f.2 else after ['-', o] f.2

/-- The argument vector of a command with the options `opts`. -/
def argRow (opts : List (Char × List Char)) : List Char :=
  closed NUL (CF_PORTPROG :: opts.map optArg)

section
variable {opts : List (Char × List Char)} {o : Char}

theorem length_le_closed (row : List (List Char)) : row.length ≤ (closed NUL row).length := by
  induction row with
  | nil => exact Nat.zero_le _
  | cons a row ih =>
      rw [closed_cons, List.length_append, List.length_cons, List.length_cons]
      omega

theorem after_optArg {f : Char × List Char} (hf : Proper f) :
    after ['-', o] (optArg f) = hit o f := by
  rw [hit]
  split
  · rename_i heq
    rw [← heq]
    have happ : after ['-', f.1] (['-', f.1] ++ f.2) = some f.2 := after_append
    exact happ
  · rename_i hne
    have hdash : f.1 ≠ '-' := by
      have hall : ∀ c ∈ ['l', 't', 'd', 'a', 'p', 'r', 'S'], c ≠ '-' :=
        forall_mem_of_all (by decide)
      exact hall f.1 hf.letter
    exact after_pair_ne hne hdash

theorem findSome?_optArg (hopts : ∀ f ∈ opts, Proper f) :
    (opts.map optArg).findSome? (after ['-', o]) = opts.findSome? (hit o) := by
  induction opts with
  | nil => rfl
  | cons f opts ih =>
      rw [List.map_cons, List.findSome?_cons, List.findSome?_cons,
        after_optArg (hopts f (List.mem_cons_self ..)),
        ih fun x hx => hopts x (List.mem_cons_of_mem _ hx)]

/-- **What is found for an option** in an argument vector, whatever stands behind it. -/
theorem optValue_row (hopts : ∀ f ∈ opts, Proper f) (junk : List Char) :
    optValue (argRow opts ++ junk) (argRow opts).length ['-', o] = opts.findSome? (hit o) := by
  have hnul : ∀ a ∈ CF_PORTPROG :: opts.map optArg, NUL ∉ a := by
    intro a ha
    cases List.mem_cons.mp ha with
    | inl hprog => rw [hprog]; decide
    | inr hopt =>
        obtain ⟨f, hf, rfl⟩ := List.mem_map.mp hopt
        exact (hopts f hf).quiet_arg.nul
  have hne : ∀ a ∈ CF_PORTPROG :: opts.map optArg, a ≠ ['-', o] := by
    intro a ha he
    cases List.mem_cons.mp ha with
    | inl hprog =>
        have hlen : 5 = 2 := congrArg List.length (hprog.symm.trans he)
        exact absurd hlen (by decide)
    | inr hopt =>
        obtain ⟨f, hf, rfl⟩ := List.mem_map.mp hopt
        -- only an option without a value is an argument of two characters
        have hnil : f.2 = [] := (List.cons.inj (List.cons.inj he).2).2
        exact (hopts f hf).value.ne_nil hnil
  have hprog : after ['-', o] CF_PORTPROG = none := after_eq_none (by decide)
  have hsearch : optValue (argRow opts ++ junk) (argRow opts).length ['-', o] =
      (CF_PORTPROG :: opts.map optArg).findSome? (after ['-', o]) :=
    cmdGetOptsLoop_row hnul hne (List.cons_ne_nil _ _) (Nat.le_succ_of_le (length_le_closed _))
      (List.nil_append _).symm (Nat.zero_add _).symm
  rw [hsearch, List.findSome?_cons, hprog]
  exact findSome?_optArg hopts

/-- What is found is the option's own value exactly if nothing before it is in the way. -/
theorem findSome?_hit_iff :
    opts.findSome? (hit o) = opts.lookup o ↔
      ∀ v, (opts.takeWhile (·.1 ≠ o)).findSome? (fun f => after ['-', o] f.2) = some v →
        opts.lookup o = some v := by
  induction opts with
  | nil => exact ⟨fun _ v hv => (nomatch hv), fun _ => rfl⟩
  | cons f opts ih =>
      by_cases hfo : f.1 = o
      · have hhit : hit o f = some f.2 := by rw [hit, if_pos hfo]
        have hlook : (f :: opts).lookup o = some f.2 := by
          rw [List.lookup_cons, hfo, beq_self_eq_true]
        rw [List.findSome?_cons, hhit, hlook, List.takeWhile_cons_of_neg (by simp [hfo])]
        exact ⟨fun _ v hv => (nomatch hv), fun _ => rfl⟩
      · have hhit : hit o f = after ['-', o] f.2 := by rw [hit, if_neg hfo]
        have hlook : (f :: opts).lookup o = opts.lookup o := by
          rw [List.lookup_cons, beq_false_of_ne (Ne.symm hfo)]
        rw [List.findSome?_cons, hhit, hlook, List.takeWhile_cons_of_pos (by simp [hfo]),
          List.findSome?_cons]
        cases after ['-', o] f.2 with
        | none => exact ih
        | some v =>
            constructor
            · intro heq v' hv
              cases hv
              exact heq.symm
            · exact fun hall => (hall v rfl).symm

end

/-! ## The argument vector of an entry -/

section
variable {site : Site} {t : TtyInfo} {conf : List Char}

theorem TtyInfo.Parsed.quiet_mon (h : t.Parsed) (hplain : t.Plain) : Quiet t.mon :=
  (h.name.quiet (hplain _ (by simp))).append (forall_mem_of_all (by decide)) (by decide)
    (by decide)

theorem proper_ownOptions (h : t.Parsed) (hplain : t.Plain) : ∀ f ∈ t.ownOptions, Proper f := by
  intro f hf
  cases List.mem_append.mp hf with
  | inl hfive =>
      simp only [List.mem_cons, List.not_mem_nil, or_false] at hfive
      rcases hfive with rfl | rfl | rfl | rfl | rfl
      · exact .of (by decide) (h.quiet_mon hplain)
      · exact .of (by decide) (h.name.quiet (hplain _ (by simp)))
      · exact .of (by decide) (h.type.quiet (hplain _ (by simp)))
      · exact .of (by decide) (h.addr.quiet (hplain _ (by simp)))
      · exact .of (by decide) (h.port.quiet (hplain _ (by simp)))
  | inr hred =>
      split at hred
      · rename_i hhas
        rw [List.mem_singleton.mp hred]
        exact .of (by decide) ((h.red hhas).quiet (hplain _ (by simp)))
      · exact nomatch hred

theorem proper_optionsFor (h : t.Parsed) (hplain : t.Plain) (hconf : Quiet conf) :
    ∀ f ∈ t.optionsFor conf, Proper f := by
  intro f hf
  cases List.mem_append.mp hf with
  | inl hown => exact proper_ownOptions h hplain f hown
  | inr hssl =>
      split at hssl
      · rw [List.mem_singleton.mp hssl]
        exact .of (by decide) (hconf)
      · exact nomatch hssl

theorem proper_options (h : t.Parsed) (hplain : t.Plain) : ∀ f ∈ t.options site, Proper f :=
  proper_optionsFor h hplain site.quiet_sslconf

/-- The values of an entry are short. -/
theorem length_ownOptions (h : t.Parsed) : ∀ f ∈ t.ownOptions, f.2.length ≤ 49 := by
  have hmon : t.mon.length = 18 + t.mptNameidxStr.length := by
    rw [TtyInfo.mon, List.length_append]
    rfl
  have hname := h.name.length_le
  have htype := h.type.length_le
  have haddr := h.addr.length_le
  have hport := h.port.length_le
  simp only [STR_MAX, ADDR_MAX] at *
  intro f hf
  cases List.mem_append.mp hf with
  | inl hfive =>
      simp only [List.mem_cons, List.not_mem_nil, or_false] at hfive
      rcases hfive with rfl | rfl | rfl | rfl | rfl <;> (simp only; omega)
  | inr hred =>
      split at hred
      · rename_i hhas
        have hlen := (h.red hhas).length_le
        rw [List.mem_singleton.mp hred]
        simp only [ADDR_MAX] at *
        omega
      · exact nomatch hred

theorem length_commandText {opts : List (Char × List Char)} {k : Nat}
    (hopts : ∀ f ∈ opts, f.2.length ≤ k) :
    (commandText opts).length ≤ 5 + opts.length * (k + 3) := by
  have hflat : (opts.flatMap fun f => ' ' :: optArg f).length ≤ opts.length * (k + 3) := by
    induction opts with
    | nil => exact Nat.zero_le _
    | cons f opts ih =>
        have hf := hopts f (List.mem_cons_self ..)
        have hrest := ih fun x hx => hopts x (List.mem_cons_of_mem _ hx)
        have harg : (' ' :: optArg f).length = f.2.length + 3 := rfl
        rw [List.flatMap_cons, List.length_append, harg, List.length_cons, Nat.add_one_mul]
        omega
  rw [commandText, List.length_append]
  have hprog : CF_PORTPROG.length = 5 := rfl
  omega

theorem length_commandText_own (h : t.Parsed) : (commandText t.ownOptions).length ≤ 317 := by
  have hsix : t.ownOptions.length ≤ 6 := by
    simp only [TtyInfo.ownOptions, List.length_append, List.length_cons, List.length_nil]
    split <;> (simp only [List.length_cons, List.length_nil]; omega)
  have hle := length_commandText (length_ownOptions h)
  omega

theorem commandText_append (opts more : List (Char × List Char)) :
    commandText (opts ++ more) = commandText opts ++ more.flatMap fun f => ' ' :: optArg f := by
  rw [commandText, commandText, List.flatMap_append, List.append_assoc]

theorem takeWhile_amp (k : Nat) : (['&'].take k).takeWhile (· ≠ '&') = [] := by
  cases k <;> rfl

/-- A command that fits comes to its daemon as it is. -/
theorem cmdline_fits (h : t.Parsed) (hplain : t.Plain) (hfits : t.Fits site) :
    cmdline site t = argRow (t.options site) := by
  have hproper : ∀ f ∈ t.options site, Proper f := proper_options h hplain
  rw [TtyInfo.Fits, createSyscmd_eq] at hfits
  have hwhole : ∀ text : List Char, (snprintf 1024 text).2 < 1024 → text.take 1023 = text :=
    fun text hlt => List.take_of_length_le (Nat.le_of_lt_succ hlt)
  rw [cmdline, argRow, systemArg, createSyscmd_eq]
  simp only [snprintf]
  rw [hwhole _ hfits]
  refine congrArg (closed NUL) ?_
  cases hssl : t.devSsl with
  | true =>
      exact shellWords_text hproper (show ∀ v ∈ ([] : List (List Char)), v = [] from nofun)
        (takeWhile_amp _)
  | false => exact shellWords_text hproper (show ∀ v ∈ [[]], v = [] by simp) (takeWhile_amp _)

/-- **A command that does not fit** is one with a long path of the TLS configuration,
and its daemon gets only the beginning of that. -/
theorem cmdline_cut (h : t.Parsed) (hplain : t.Plain) (hcut : ¬ t.Fits site) :
    t.devSsl = true ∧ ∃ m, 49 < m ∧ m < site.sslconf.length ∧
      cmdline site t = argRow (t.optionsFor (site.sslconf.take m)) := by
  have hown := length_commandText_own h
  rw [TtyInfo.Fits, createSyscmd_eq] at hcut
  simp only [snprintf, TtyInfo.options] at hcut
  cases hssl : t.devSsl with
  | false =>
      simp [hssl] at hcut
      omega
  | true =>
      have hlong : 1024 ≤ (commandText t.ownOptions).length + 3 + site.sslconf.length := by
        simp [hssl, commandText_append, optArg] at hcut
        omega
      have hcuts : ∀ conf : List Char, commandText (t.ownOptions ++ [('S', conf)]) =
          commandText t.ownOptions ++ ' ' :: '-' :: 'S' :: conf := fun conf => by
        rw [commandText_append]
        simp [optArg]
      refine ⟨rfl, 1020 - (commandText t.ownOptions).length, by omega, by omega, ?_⟩
      have htake := site.quiet_sslconf.take
        (show 0 < 1020 - (commandText t.ownOptions).length by omega)
      have hwords := shellWords_text (proper_optionsFor h hplain htake)
        (show ∀ v ∈ ([] : List (List Char)), v = [] from nofun) (takeWhile_amp 0)
      have htext : (commandText (t.ownOptions ++ [('S', site.sslconf)])).take 1023 =
          commandText (t.ownOptions ++
            [('S', site.sslconf.take (1020 - (commandText t.ownOptions).length))]) := by
        have hsub : 1023 - (commandText t.ownOptions).length =
            1020 - (commandText t.ownOptions).length + 3 := by omega
        rw [hcuts, hcuts, List.take_append, List.take_of_length_le (by omega), hsub]
        rfl
      have hnoamp : 1024 - (commandText (t.ownOptions ++ [('S', site.sslconf)])).length - 1 - 1 = 0 := by
        rw [hcuts]
        simp only [List.length_append, List.length_cons]
        omega
      rw [cmdline, argRow, systemArg, createSyscmd_eq]
      simp only [snprintf, TtyInfo.options, TtyInfo.optionsFor, hssl, if_true, List.append_nil] at hwords ⊢
      rw [hnoamp, htext]
      refine congrArg (closed NUL) ?_
      simpa using hwords

end

/-! ## The comparison -/

section
variable {site : Site} {t : TtyInfo} {oldcmd : List Char} {oldcmdlen : Nat}

/-- Two strings are the same if they are as far as `strncmp` looks, which is to the end of
the longer one. -/
theorem optCmp_eq_zero {option : List Char} {val : Option (List Char)}
    (hshort : ∀ v, optValue oldcmd oldcmdlen option = some v → v.length < oldcmdlen) :
    optCmp oldcmd oldcmdlen option val = 0 ↔ val = optValue oldcmd oldcmdlen option := by
  unfold optCmp
  cases hold : optValue oldcmd oldcmdlen option with
  | none =>
      cases val with
      | none => exact iff_of_true rfl rfl
      | some v => exact iff_of_false nofun nofun
  | some o =>
      have ho := hshort o hold
      cases val with
      | none => exact iff_of_false nofun nofun
      | some v =>
          simp only [Option.map_some, Option.getD_some, strncmp, Option.some.injEq]
          generalize hn : (if min v.length oldcmdlen > min o.length oldcmdlen then
            min v.length oldcmdlen else min o.length oldcmdlen) = n
          have hon : o.length ≤ n := by split at hn <;> omega
          constructor
          · intro hzero
            have htake : v.take n = o := by
              have heq : v.take n = o.take n := by
                by_contra hne
                rw [if_neg (by simpa using hne)] at hzero
                exact absurd hzero (by decide)
              rw [heq, List.take_of_length_le hon]
            have hvn : v.length ≤ n := by
              have hlen := congrArg List.length htake
              rw [List.length_take] at hlen
              split at hn <;> omega
            rwa [List.take_of_length_le hvn] at htake
          · rintro rfl
            rw [if_pos (beq_self_eq_true _)]

theorem given_values (site : Site) (t : TtyInfo) :
    t.given site 'l' = some t.mon ∧ t.given site 'd' = some t.devTypeStr ∧
      t.given site 'a' = some t.devIpaddrStr ∧ t.given site 'p' = some t.devPortidxStr ∧
      t.given site 'r' = (if t.hasRedundantIp then some t.devRedundantIpaddrStr else none) ∧
      t.given site 'S' = (if t.devSsl then some site.sslconf else none) := by
  refine ⟨rfl, rfl, rfl, rfl, ?_, ?_⟩ <;>
    cases hred : t.hasRedundantIp <;> cases hssl : t.devSsl <;>
      (simp only [TtyInfo.given, TtyInfo.options, TtyInfo.ownOptions, hred, hssl]; rfl)

theorem oldcmdCmp_eq_zero
    (hshort : ∀ o v, optValue oldcmd oldcmdlen ['-', o] = some v → v.length < oldcmdlen) :
    oldcmdCmp site oldcmd oldcmdlen t = 0 ↔
      ∀ o ∈ compared, t.given site o = optValue oldcmd oldcmdlen ['-', o] := by
  obtain ⟨hl, hd, ha, hp, hr, hs⟩ := given_values site t
  have hcmp : ∀ o val, optCmp oldcmd oldcmdlen ['-', o] val = 0 ↔
      val = optValue oldcmd oldcmdlen ['-', o] := fun o _ => optCmp_eq_zero (hshort o)
  simp only [compared, List.forall_mem_cons, List.not_mem_nil, false_imp_iff, implies_true,
    and_true, hl, hd, ha, hp, hr, hs, ← hcmp]
  show _ + _ + _ + _ + _ + _ = 0 ↔ _
  simp only [Nat.add_eq_zero_iff, and_assoc]
  exact Iff.rfl

theorem length_of_hit {o : Char} {f : Char × List Char} {v : List Char} (h : hit o f = some v) :
    v.length ≤ f.2.length := by
  rw [hit] at h
  split at h
  · cases h
    exact Nat.le_refl _
  · have hlen := length_of_after h
    omega

theorem length_lt_closed {row : List (List Char)} {a : List Char} (ha : a ∈ row) :
    a.length < (closed NUL row).length := by
  induction row with
  | nil => exact nomatch ha
  | cons b row ih =>
      rw [closed_cons, List.length_append, List.length_cons]
      cases List.mem_cons.mp ha with
      | inl he => rw [he]; omega
      | inr hrest =>
          have hlt := ih hrest
          omega

theorem length_of_optValue {opts : List (Char × List Char)} (hopts : ∀ f ∈ opts, Proper f)
    {junk : List Char} (o : Char) (v : List Char)
    (h : optValue (argRow opts ++ junk) (argRow opts).length ['-', o] = some v) :
    v.length < (argRow opts).length := by
  rw [optValue_row hopts] at h
  obtain ⟨f, hf, hhit⟩ := List.exists_of_findSome?_eq_some h
  have hle := length_of_hit hhit
  have hmem : optArg f ∈ CF_PORTPROG :: opts.map optArg :=
    List.mem_cons_of_mem _ (List.mem_map_of_mem hf)
  have hlt := length_lt_closed hmem
  have harg : (optArg f).length = f.2.length + 2 := rfl
  rw [argRow]
  omega

end

/-! ## Idempotent and exact -/

/-- A daemon is left alone exactly if nothing is found that differs. -/
theorem spawnOne_eq_nil {site : Site} {t : TtyInfo} {pid oldcmdlen : Nat} {oldcmd : List Char} :
    spawnOne site t (.daemon pid oldcmd oldcmdlen) = [] ↔
      oldcmdCmp site oldcmd oldcmdlen t = 0 := by
  rw [spawnOne]
  split
  · rename_i hzero
    exact iff_of_true rfl hzero
  · rename_i hdiff
    exact iff_of_false (by simp) hdiff

/-- When a command is cut, the value of its last option is lost. -/
theorem row_cut {site : Site} {b : TtyInfo} (h : b.Parsed) (hplain : b.Plain)
    (hcut : ¬ b.Fits site) (junk : List Char) :
    optValue (cmdline site b ++ junk) (cmdline site b).length ['-', 'S'] ≠ b.given site 'S' := by
  obtain ⟨hssl, m, hm, hlen, hline⟩ := cmdline_cut h hplain hcut
  have hquiet := site.quiet_sslconf.take (show 0 < m by omega)
  have hgiven : b.given site 'S' = some site.sslconf := by
    rw [(given_values site b).2.2.2.2.2, if_pos hssl]
  rw [hline, optValue_row (proper_optionsFor h hplain hquiet), hgiven]
  intro hfound
  rw [TtyInfo.optionsFor, if_pos hssl, List.findSome?_append] at hfound
  cases hown : b.ownOptions.findSome? (hit 'S') with
  | some v =>
      -- a value of the entry itself is too short
      rw [hown] at hfound
      obtain ⟨f, hf, hhit⟩ := List.exists_of_findSome?_eq_some hown
      have hle := length_of_hit hhit
      have hfour := length_ownOptions h f hf
      have hv : v = site.sslconf := Option.some.inj hfound
      rw [hv] at hle
      omega
  | none =>
      rw [hown] at hfound
      have hv : site.sslconf.take m = site.sslconf := Option.some.inj hfound
      have hsame := congrArg List.length hv
      rw [List.length_take] at hsame
      omega

/-- Values without a dash are in nobody's way: numbers, IPv4 and IPv6 addresses. -/
theorem clear_of_no_dash {site : Site} {t : TtyInfo} (h : ∀ f ∈ t.options site, '-' ∉ f.2)
    (o : Char) : Clear site t o := by
  intro v hv
  obtain ⟨f, hf, hafter⟩ := List.exists_of_findSome?_eq_some hv
  have hmem : f ∈ t.options site := (List.takeWhile_sublist _).mem hf
  rw [after_eq_none (h f hmem)] at hafter
  exact nomatch hafter

/-- **What `advttyd` knows of a daemon it started.**  From the argument vector of the
`vcomd` of `b`, every option is recovered with the value `b` gave it, and the daemon is
left alone exactly for the entries that agree with `b`: all this if and only if the
command of `b` fits its buffer and none of its values is in the way of an option. -/
theorem sync_exact (site : Site) {file : List Char} {b : TtyInfo} (hb : b ∈ paserConfig file)
    (hplain : b.Plain) (junk : List Char) :
    let L := cmdline site b
    ((∀ o ∈ compared, optValue (L ++ junk) L.length ['-', o] = b.given site o) ∧
      ∀ file' a, a ∈ paserConfig file' → a.Plain →
        (oldcmdCmp site (L ++ junk) L.length a = 0 ↔ Agree site a b) ∧
        ∀ pid, spawnOne site a (.daemon pid (L ++ junk) L.length) = [] ↔ Agree site a b) ↔
      b.Fits site ∧ ∀ o ∈ compared, Clear site b o := by
  have hparsed := paserConfig_parsed hb
  intro L
  constructor
  · rintro ⟨hvalues, -⟩
    have hfits : b.Fits site := by
      by_contra hcut
      exact row_cut hparsed hplain hcut junk (hvalues 'S' (by decide))
    refine ⟨hfits, fun o ho => ?_⟩
    have hvalue := hvalues o ho
    have hproper : ∀ f ∈ b.options site, Proper f := proper_options hparsed hplain
    have hline : L = argRow (b.options site) := cmdline_fits hparsed hplain hfits
    rw [hline, optValue_row hproper] at hvalue
    exact findSome?_hit_iff.mp hvalue
  · rintro ⟨hfits, hclear⟩
    have hproper : ∀ f ∈ b.options site, Proper f := proper_options hparsed hplain
    have hline : L = argRow (b.options site) := cmdline_fits hparsed hplain hfits
    have hvalues : ∀ o ∈ compared, optValue (L ++ junk) L.length ['-', o] = b.given site o := by
      intro o ho
      rw [hline, optValue_row hproper]
      exact findSome?_hit_iff.mpr (hclear o ho)
    have hcmp : ∀ a, oldcmdCmp site (L ++ junk) L.length a = 0 ↔ Agree site a b := by
      intro a
      rw [oldcmdCmp_eq_zero (by rw [hline]; exact length_of_optValue hproper)]
      refine forall_congr' fun o => imp_congr_right fun ho => ?_
      rw [hvalues o ho]
    exact ⟨hvalues, fun _ a _ _ => ⟨hcmp a, fun _ => spawnOne_eq_nil.trans (hcmp a)⟩⟩

/-- The directory `advttyd` is installed with. -/
def advtty : Site := ⟨"/usr/local/advtty".toList, by decide, forall_mem_of_all (by decide)⟩

/-- The configuration that comes with the program. -/
def shipped : List Char := "0   1322    2001:db8:0:f101::4   1\n".toList

theorem sync_exact_shipped :
    ∃ b ∈ paserConfig shipped, ∀ pid,
      spawnOne advtty b (.daemon pid (cmdline advtty b) (cmdline advtty b).length) = [] := by
  refine ⟨⟨"0".toList, "1322".toList, "2001:db8:0:f101::4".toList, "1".toList, [], false, false⟩,
    by decide +kernel, fun pid => ?_⟩
  have hmem : (⟨"0".toList, "1322".toList, "2001:db8:0:f101::4".toList, "1".toList, [], false,
    false⟩ : TtyInfo) ∈ paserConfig shipped := by decide +kernel
  have hexact := (sync_exact advtty hmem (by decide) []).mpr
    ⟨by decide +kernel, fun o _ => clear_of_no_dash (by decide +kernel) o⟩
  have halone := (hexact.2 shipped _ hmem (by decide)).2 pid
  rw [List.append_nil] at halone
  exact halone.mpr fun _ _ => rfl

/-- **Where it fails.**  The port index is looked for in the host name: with the host
`my-printer` the daemon is killed and started again although nothing has changed, and
with the host `x-p5` a daemon of port 7 passes for one of port 5. -/
theorem sync_fails :
    (∃ b ∈ paserConfig "0 1322 my-printer 1\n".toList, b.Plain ∧
      optValue (cmdline advtty b) (cmdline advtty b).length "-p".toList = some "rinter".toList ∧
      spawnOne advtty b (.daemon 42 (cmdline advtty b) (cmdline advtty b).length) =
        [.kill 42, .system (systemArg advtty b)]) ∧
    (∃ b ∈ paserConfig "0 1322 x-p5 7\n".toList, ∃ a ∈ paserConfig "0 1322 x-p5 5\n".toList,
      a.Plain ∧ b.Plain ∧ ¬ Agree advtty a b ∧
      spawnOne advtty a (.daemon 42 (cmdline advtty b) (cmdline advtty b).length) = []) := by
  decide +kernel

end AdvVcom
