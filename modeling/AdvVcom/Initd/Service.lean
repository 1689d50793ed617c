/-
# `AdvVcom.Initd.Service` — `advttyd` and the processes it looks after

`advttyd` has no memory of its own: each time it is run it finds the daemons of the ports
in `/proc`, by the driver's file they have open (`__cmd_inode_search_pid`), and kills and
starts what the configuration calls for.  The system is the table of processes, and a run
of `advttyd` is a step of it:

    kill        the process is gone
    system      the shell starts `vcomd`, which reads its command line (`startup`), opens
                the file of the driver and stays, or gives up and is gone

What it is for is said one level up, in terms of ports: a run puts the daemon of each entry
on its port, and with `-c` takes the daemons of all other ports away (`wanted`).

A process is what `/proc` shows of it.  Processes come and go only by what `advttyd` does,
and a daemon has its file open by the time somebody looks for it.  `readdir` gives the
processes by their numbers.

**Proved here.**

    the search finds the first daemon that has the file open (`cmdInodeSearchPid_reports`)
    one entry                                                (`spawnRound_cases`)
    any number of runs, with any configurations              (`runs_refine`)
    a run keeps the processes that are as they should be, and the next one
    does nothing                                             (`second_run_still`)
-/
import AdvVcom.Initd.Startup
import Mathlib.Data.List.Nodup

namespace AdvVcom.Service

open Lib.CStr Vcomd

/-! ## Processes -/

/-- What `/proc` shows of a process.  `fds` has what `stat` says of its descriptors, and
`none` where that fails. -/
structure Process where
  pid : Nat
  cmdline : List Char
  fds : List (Option Nat)
  deriving DecidableEq, Repr

/-- What a run depends on besides the processes: the inodes of files, what becomes of a TLS
configuration, the descriptors a daemon inherits and the number a new process gets. -/
structure Host where
  stat : List Char → Option Nat
  tls : List Char → Tls
  std : List (Option Nat)
  fork : List Process → Nat
  fork_pos : ∀ table, 0 < fork table
  fork_fresh : ∀ table, ∀ p ∈ table, p.pid ≠ fork table

/-- The new process among the others. -/
def enter (p : Process) (table : List Process) : List Process :=
  table.takeWhile (·.pid < p.pid) ++ p :: table.dropWhile (·.pid < p.pid)

/-- `system` on a command that starts `vcomd` in the background. -/
def system (host : Host) (cmd : List Char) (table : List Process) : List Process :=
  match startup host.tls (shellWords cmd) with
  | .error _ => table
  | .ok port =>
      match host.stat (filename port.ttyid) with
      | none => table
      | some inode =>
          enter ⟨host.fork table, closed NUL (shellWords cmd), host.std ++ [some inode]⟩ table

/-- `kill(pid, 9)`. -/
def kill (pid : Nat) (table : List Process) : List Process := table.filter (·.pid ≠ pid)

def act (host : Host) (table : List Process) : Deed → List Process
  | .kill pid => kill pid table
  | .system cmd => system host cmd table

/-! ## `proc_tools.c` -/

/-- `__pid_search_fd_inode` returned 0. -/
def pidSearchFdInode (p : Process) (inode : Nat) : Bool := p.fds.contains (some inode)

/-- `__pidpath_get_cmd`: the buffer, of which only the part that was read is new. -/
def pidpathGetCmd (p : Process) (buflen : Nat) (buf : List Char) : List Char × Nat :=
  let data := p.cmdline.take buflen
  (data ++ buf.drop data.length, data.length)

/-- `__cmd_inode_search_pid`: the length of the argument vector and the process, if there is
one, and the buffer. -/
def cmdInodeSearchPid (cmd : List Char) (inode buflen : Nat) :
    List Char → List Process → Option (Nat × Nat) × List Char
  | buf, [] => (none, buf)
  | buf, p :: table =>
      let (buf, cmdlen) := pidpathGetCmd p buflen buf
      if cmdlen = 0 then cmdInodeSearchPid cmd inode buflen buf table
      else if (strstr cmd (upto NUL buf)).isSome ∧ pidSearchFdInode p inode then
        (some (cmdlen, p.pid), buf)
      else cmdInodeSearchPid cmd inode buflen buf table

/-! ## `advttyd.c` -/

/-- What `spawn_ttyp` finds for an entry. -/
def look (host : Host) (t : TtyInfo) (oldcmd : List Char) (table : List Process) :
    Found × List Char :=
  match host.stat (vcomif t) with
  | none => (.noInterface, oldcmd)
  | some inode =>
      match cmdInodeSearchPid CF_PORTPROG inode 2048 oldcmd table with
      | (none, oldcmd) => (.noDaemon, oldcmd)
      | (some (oldcmdlen, oldpid), oldcmd) => (.daemon oldpid oldcmd oldcmdlen, oldcmd)

/-- One round of the loop of `spawn_ttyp`. -/
def spawnRound (site : Site) (host : Host) (testrun : Bool) (t : TtyInfo) (found : Found)
    (table : List Process) : List Process :=
  if testrun then table else (spawnOne site t found).foldl (act host) table

/-- `spawn_ttyp`, from its loop on; without the driver's file `advttyd` exits. -/
def spawnLoop (site : Site) (host : Host) (testrun : Bool) :
    List TtyInfo → List Char → List Process → List Process
  | [], _, table => table
  | t :: ttyinfo, oldcmd, table =>
      match look host t oldcmd table with
      | (.noInterface, _) => table
      | (found, oldcmd) =>
          spawnLoop site host testrun ttyinfo oldcmd (spawnRound site host testrun t found table)

/-- One round of the loop of `cleanup_ttyp`, with its buffer. -/
def cleanupRound (host : Host) (testrun : Bool) (ttyinfo : List TtyInfo)
    (st : List Char × List Process) (i : Nat) : List Char × List Process :=
  match host.stat (filename i) with
  | none => st
  | some inode =>
      match cmdInodeSearchPid CF_PORTPROG inode 1024 st.1 st.2 with
      | (none, cmd) => (cmd, st.2)
      | (some (_, pid), cmd) =>
          if ttyinfo.any (fun t => atoi t.mptNameidxStr = i) ∨ testrun then (cmd, st.2)
          else (cmd, kill pid st.2)

def cleanupTtyp (host : Host) (testrun : Bool) (ttyinfo : List TtyInfo) (cmd : List Char)
    (table : List Process) : List Process :=
  ((List.range VCOM_PORTS).foldl (cleanupRound host testrun ttyinfo) (cmd, table)).2

/-- The options of a run, the configuration file, and what is in the two buffers. -/
structure Run where
  cleanup : Bool
  testrun : Bool
  file : Option (List Char)
  cmd : List Char
  oldcmd : List Char

def Run.ttyinfo (r : Run) : List TtyInfo := (r.file.map paserConfig).getD []

/-- `main`; without an entry there is nothing to do, not even to clean up. -/
def main (site : Site) (host : Host) (r : Run) (table : List Process) : List Process :=
  if r.ttyinfo = [] then table
  else
    let table := if r.cleanup then cleanupTtyp host r.testrun r.ttyinfo r.cmd table else table
    spawnLoop site host r.testrun r.ttyinfo r.oldcmd table

/-! ## What a table shows -/

/-- A daemon that has the file with this inode open. -/
def Holds (inode : Nat) (p : Process) : Bool :=
  (strstr CF_PORTPROG (upto NUL p.cmdline)).isSome && pidSearchFdInode p inode

/-- A daemon that has the driver's file of port `i` open. -/
def Serves (host : Host) (i : Nat) (p : Process) : Bool :=
  (host.stat (filename i)).any fun inode => Holds inode p

def daemons (host : Host) (table : List Process) (i : Nat) : List Process :=
  table.filter (Serves host i)

/-- The driver is loaded: each port has its own file, and no daemon inherits one. -/
structure Loaded (host : Host) : Prop where
  found : ∀ i < VCOM_PORTS, (host.stat (filename i)).isSome
  apart : ∀ i < VCOM_PORTS, ∀ j < VCOM_PORTS,
    host.stat (filename i) = host.stat (filename j) → i = j
  std : ∀ i < VCOM_PORTS, host.stat (filename i) ∉ host.std

/-- The port of an entry. -/
def minor (t : TtyInfo) : Nat := (atoi t.mptNameidxStr).toNat

/-- An entry of a configuration for one of the driver's ports, with strings that reach the
daemon as they are and can be found again in its argument vector. -/
structure Good (site : Site) (host : Host) (t : TtyInfo) : Prop where
  entry : ∃ file, t ∈ paserConfig file
  port : IsMinor t.mptNameidxStr
  plain : t.Plain
  fits : t.Fits site
  clear : ∀ o ∈ compared, Clear site t o
  tls : t.devSsl = true → host.tls site.sslconf = .ready

/-- The argument vector of a process ends before the buffer does. -/
def Tidy (p : Process) : Prop := p.cmdline = [] ∨ NUL ∈ p.cmdline.take 1024

/-- Nothing runs on port `i`, or the daemon of an entry does, and on no other port. -/
def PortShows (site : Site) (host : Host) (table : List Process) (i : Nat) : Option TtyInfo → Prop
  | none => daemons host table i = []
  | some t => Good site host t ∧ minor t = i ∧ ∃ p, daemons host table i = [p] ∧
      p.cmdline = cmdline site t ∧ ∀ j < VCOM_PORTS, Serves host j p = true → j = i

/-- **The table shows `ports`**: which daemon runs on which port. -/
structure Shows (site : Site) (host : Host) (table : List Process)
    (ports : Nat → Option TtyInfo) : Prop where
  nodup : (table.map Process.pid).Nodup
  pos : ∀ p ∈ table, 0 < p.pid
  tidy : ∀ p ∈ table, Tidy p
  port : ∀ i < VCOM_PORTS, PortShows site host table i (ports i)

/-! ## The search -/

section
variable {table : List Process} {buflen : Nat}

theorem upto_cmdline {p : Process} (h : NUL ∈ p.cmdline.take 1024) (hlen : 1024 ≤ buflen)
    (junk : List Char) : upto NUL (p.cmdline.take buflen ++ junk) = upto NUL p.cmdline := by
  have hmem : NUL ∈ p.cmdline.take buflen :=
    (List.take_prefix_take_left hlen).subset h
  rw [upto_append_of_mem hmem]
  conv_rhs => rw [← List.take_append_drop buflen p.cmdline]
  rw [upto_append_of_mem hmem]

/-- What the search reports of a process: its number, and its argument vector in the buffer. -/
def Reports (buflen : Nat) : Option Process → Option (Nat × Nat) × List Char → Prop
  | none, r => r.1 = none
  | some p, r => ∃ junk,
      r = (some ((p.cmdline.take buflen).length, p.pid), p.cmdline.take buflen ++ junk)

/-- **The search** finds the first daemon that has the file open. -/
theorem cmdInodeSearchPid_reports (inode : Nat) (hlen : 1024 ≤ buflen)
    (htidy : ∀ p ∈ table, Tidy p) (buf : List Char) : Reports buflen (table.find? (Holds inode))
      (cmdInodeSearchPid CF_PORTPROG inode buflen buf table) := by
  induction table generalizing buf with
  | nil => rfl
  | cons p table ih =>
      have hrest := ih fun q hq => htidy q (List.mem_cons_of_mem _ hq)
      rw [cmdInodeSearchPid]
      simp only [pidpathGetCmd]
      rcases htidy p List.mem_cons_self with hnil | hnul
      · -- a process without an argument vector is passed over
        have hnot : Holds inode p = false := by simp [Holds, hnil, upto, strstr, CF_PORTPROG]
        rw [List.find?_cons_of_neg (by simp [hnot])]
        simp only [hnil, List.take_nil, List.length_nil, if_true]
        exact hrest _
      · have hlong : (p.cmdline.take buflen).length ≠ 0 := by
          intro hzero
          rw [List.length_eq_zero_iff] at hzero
          have hmem : NUL ∈ p.cmdline.take buflen := (List.take_prefix_take_left hlen).subset hnul
          rw [hzero] at hmem
          cases hmem
        simp only [if_neg hlong, upto_cmdline hnul hlen]
        cases hholds : Holds inode p with
        | true =>
            have hfound := Bool.and_eq_true_iff.mp hholds
            rw [List.find?_cons_of_pos hholds, if_pos hfound]
            exact ⟨_, rfl⟩
        | false =>
            have hnot : ¬ ((strstr CF_PORTPROG (upto NUL p.cmdline)).isSome = true ∧
                pidSearchFdInode p inode = true) := by
              rw [← Bool.and_eq_true_iff]
              exact Bool.eq_false_iff.mp hholds
            rw [List.find?_cons_of_neg (by simp [hholds]), if_neg hnot]
            exact hrest _

end

/-! ## Coming and going -/

section
variable {table : List Process} {p : Process} {q : Process → Bool}

theorem enter_perm (p : Process) (table : List Process) : (enter p table).Perm (p :: table) := by
  refine List.perm_middle.trans (List.Perm.cons p ?_)
  rw [List.takeWhile_append_dropWhile]

theorem mem_enter {x : Process} : x ∈ enter p table ↔ x = p ∨ x ∈ table := by
  rw [(enter_perm p table).mem_iff, List.mem_cons]

theorem enter_filter (p : Process) (table : List Process) (q : Process → Bool) :
    (enter p table).filter q = (table.takeWhile (·.pid < p.pid)).filter q ++
      ([p].filter q ++ (table.dropWhile (·.pid < p.pid)).filter q) := by
  rw [enter, List.filter_append, ← List.singleton_append, List.filter_append]

/-- Who enters is not seen by those who do not look for it. -/
theorem enter_filter_neg (hp : q p = false) : (enter p table).filter q = table.filter q := by
  rw [enter_filter, List.filter_cons_of_neg (by simp [hp]), List.filter_nil, List.nil_append,
    ← List.filter_append, List.takeWhile_append_dropWhile]

theorem enter_filter_pos (hp : q p = true) (hnone : table.filter q = []) :
    (enter p table).filter q = [p] := by
  have hall : ∀ x ∈ table, ¬ q x = true := List.filter_eq_nil_iff.mp hnone
  have hfront : (table.takeWhile (·.pid < p.pid)).filter q = [] :=
    List.filter_eq_nil_iff.mpr fun x hx => hall x ((List.takeWhile_sublist _).mem hx)
  have hback : (table.dropWhile (·.pid < p.pid)).filter q = [] :=
    List.filter_eq_nil_iff.mpr fun x hx => hall x ((List.dropWhile_sublist _).mem hx)
  rw [enter_filter, hfront, hback, List.filter_cons_of_pos hp]
  rfl

theorem mem_kill {x : Process} {pid : Nat} : x ∈ kill pid table ↔ x ∈ table ∧ x.pid ≠ pid := by
  simp [kill]

/-- A process that is not looked for is not missed. -/
theorem kill_filter_neg (hnodup : (table.map Process.pid).Nodup) (hp : p ∈ table)
    (hq : q p = false) : (kill p.pid table).filter q = table.filter q := by
  rw [kill, List.filter_filter]
  refine List.filter_congr fun x hx => ?_
  by_cases hpid : x.pid = p.pid
  · rw [List.inj_on_of_nodup_map hnodup hx hp hpid, hq]
    rfl
  · simp [hpid]

theorem kill_filter_pos (hone : table.filter q = [p]) : (kill p.pid table).filter q = [] := by
  refine List.filter_eq_nil_iff.mpr fun x hx hqx => ?_
  obtain ⟨hmem, hpid⟩ := mem_kill.mp hx
  have hxp : x ∈ table.filter q := List.mem_filter.mpr ⟨hmem, hqx⟩
  rw [hone, List.mem_singleton] at hxp
  rw [hxp] at hpid
  exact hpid rfl

end

/-! ## The daemon of an entry -/

section
variable {site : Site} {host : Host} {t u : TtyInfo} {i : Nat}

theorem Good.name (h : Good site host t) : t.mptNameidxStr = (Nat.repr (minor t)).toList := by
  obtain ⟨i, hi, hname⟩ := h.port
  have hports : VCOM_PORTS = 256 := rfl
  have hsmall : i < 2 ^ 31 := by omega
  have hminor : minor t = i := by
    rw [minor, hname, atoi_repr hsmall]
    exact Int.toNat_natCast i
  rw [hminor]
  exact hname

theorem Good.minor_lt (h : Good site host t) : minor t < VCOM_PORTS := by
  obtain ⟨i, hi, hname⟩ := h.port
  have hports : VCOM_PORTS = 256 := rfl
  have hsmall : i < 2 ^ 31 := by omega
  rw [minor, hname, atoi_repr hsmall, Int.toNat_natCast]
  exact hi

theorem Good.vcomif (h : Good site host t) : vcomif t = filename (minor t) :=
  congrArg ("/proc/vcom/advproc".toList ++ ·) h.name

theorem Good.parsed (h : Good site host t) : t.Parsed := by
  obtain ⟨file, hfile⟩ := h.entry
  exact paserConfig_parsed hfile

theorem Good.line (h : Good site host t) : cmdline site t = argRow (t.options site) :=
  cmdline_fits h.parsed h.plain h.fits

/-- An entry without a redundant address has none in its record. -/
theorem parseLine_red {confDp : List Char} {t : TtyInfo} (h : parseLine confDp = some t)
    (hred : t.hasRedundantIp = false) : t.devRedundantIpaddrStr = [] := by
  rw [parseLine] at h
  split at h
  · rename_i more _
    split at h
    · cases h
    split at h
    · cases h
    cases h
    cases more with
    | nil => rfl
    | cons r more => cases hred
  · cases h

theorem Good.red (h : Good site host t) (hred : t.hasRedundantIp = false) :
    t.devRedundantIpaddrStr = [] := by
  obtain ⟨file, hfile⟩ := h.entry
  rw [paserConfig, paserLoop_lines (Nat.le_refl _)] at hfile
  obtain ⟨l, -, hl⟩ := List.mem_flatMap.mp (List.mem_of_mem_take hfile)
  obtain ⟨piece, -, hpiece⟩ := List.mem_filterMap.mp hl
  exact parseLine_red hpiece hred

/-- Entries that agree in the options are the same. -/
theorem Good.eq_of_agree (ht : Good site host t) (hu : Good site host u)
    (h : Agree site t u) : t = u := by
  obtain ⟨htl, htd, hta, htp, htr, hts⟩ := given_values site t
  obtain ⟨hul, hud, hua, hup, hur, hus⟩ := given_values site u
  have hl := h 'l' (by decide)
  have hd := h 'd' (by decide)
  have ha := h 'a' (by decide)
  have hp := h 'p' (by decide)
  have hr := h 'r' (by decide)
  have hs := h 'S' (by decide)
  rw [htl, hul, Option.some.injEq, TtyInfo.mon, TtyInfo.mon, List.append_cancel_left_eq] at hl
  rw [htd, hud, Option.some.injEq] at hd
  rw [hta, hua, Option.some.injEq] at ha
  rw [htp, hup, Option.some.injEq] at hp
  rw [htr, hur] at hr
  rw [hts, hus] at hs
  have hred := ht.red
  have hred' := hu.red
  obtain ⟨name, type, ip, port, red, has, ssl⟩ := t
  obtain ⟨name', type', ip', port', red', has', ssl'⟩ := u
  simp only at hl hd ha hp hr hs hred hred'
  obtain rfl : has = has' := by
    cases has <;> cases has' <;> simp_all
  obtain rfl : ssl = ssl' := by
    cases ssl <;> cases ssl' <;> simp_all
  cases has with
  | true => simp_all
  | false => simp_all

theorem length_argRow (opts : List (Char × List Char)) :
    (argRow opts).length = (commandText opts).length + 1 := by
  have hrest : (closed NUL (opts.map optArg)).length =
      (opts.flatMap fun f => ' ' :: optArg f).length := by
    induction opts with
    | nil => rfl
    | cons f opts ih =>
        rw [List.map_cons, closed_cons, List.flatMap_cons, List.length_append, List.length_append,
          List.length_cons, List.length_cons, ih]
        omega
  rw [argRow, closed_cons, commandText, List.length_append, List.length_append, List.length_cons,
    hrest]
  rfl

/-- The argument vector of a daemon fits the buffers it is read into. -/
theorem Good.take_line (h : Good site host t) {n : Nat} (hn : 1024 ≤ n) :
    (cmdline site t).take n = cmdline site t := by
  have hfits := h.fits
  rw [TtyInfo.Fits, createSyscmd_eq, snprintf, List.length_append] at hfits
  rw [h.line]
  refine List.take_of_length_le ?_
  rw [length_argRow]
  omega

/-- A daemon is known by its entry. -/
theorem Good.oldcmdCmp_iff (ht : Good site host t) (hu : Good site host u) (junk : List Char) :
    oldcmdCmp site (cmdline site u ++ junk) (cmdline site u).length t = 0 ↔ t = u := by
  have hproper : ∀ f ∈ u.options site, Proper f := proper_options hu.parsed hu.plain
  rw [hu.line, oldcmdCmp_eq_zero (length_of_optValue hproper)]
  have hvalue (o : Char) (ho : o ∈ compared) :
      optValue (argRow (u.options site) ++ junk) (argRow (u.options site)).length ['-', o] =
        u.given site o := by
    rw [optValue_row hproper]
    exact findSome?_hit_iff.mpr (hu.clear o ho)
  constructor
  · intro hall
    exact ht.eq_of_agree hu fun o ho => (hall o ho).trans (hvalue o ho)
  · rintro rfl o ho
    exact (hvalue o ho).symm

/-- The daemon that is started for an entry. -/
def started (site : Site) (host : Host) (t : TtyInfo) (table : List Process) : Process :=
  ⟨host.fork table, cmdline site t, host.std ++ [host.stat (filename (minor t))]⟩

theorem system_good (hl : Loaded host) (h : Good site host t) (table : List Process) :
    system host (systemArg site t) table = enter (started site host t table) table := by
  obtain ⟨file, hfile⟩ := h.entry
  obtain ⟨hpos, hname⟩ := filename_minor h.port
  obtain ⟨inode, hinode⟩ := Option.isSome_iff_exists.mp (hl.found _ h.minor_lt)
  have hstart : startup host.tls (shellWords (systemArg site t)) = .ok (portOf site t) := by
    have htls : (if t.devSsl then host.tls site.sslconf else .ready) = Tls.ready := by
      cases hssl : t.devSsl with
      | true => exact h.tls hssl
      | false => rfl
    rw [startup_eq host.tls h.parsed h.plain h.fits (port_pos hfile), startOf, htls]
    exact if_neg (Int.not_lt.mpr hpos)
  have hstat : host.stat (filename (portOf site t).ttyid) = some inode := by
    show host.stat (filename (ttyidOf t)) = _
    rw [hname, h.vcomif, hinode]
  rw [system, hstart]
  simp only [hstat]
  rw [started, hinode]
  rfl

theorem serves_iff {p : Process} {inode : Nat} (h : host.stat (filename i) = some inode) :
    Serves host i p = Holds inode p := by
  rw [Serves, h]
  rfl

theorem started_serves (hl : Loaded host) (h : Good site host t) (table : List Process) :
    Serves host (minor t) (started site host t table) = true := by
  obtain ⟨inode, hinode⟩ := Option.isSome_iff_exists.mp (hl.found _ h.minor_lt)
  have hprog : upto NUL (cmdline site t) = CF_PORTPROG := by
    rw [h.line, argRow, closed_cons]
    exact upto_append (by decide)
  rw [serves_iff hinode, Holds, started, hprog, hinode]
  simp [pidSearchFdInode, CF_PORTPROG, strstr]

theorem started_lone (hl : Loaded host) (h : Good site host t) (table : List Process) {j : Nat}
    (hj : j < VCOM_PORTS) (hserves : Serves host j (started site host t table) = true) :
    j = minor t := by
  obtain ⟨inode, hinode⟩ := Option.isSome_iff_exists.mp (hl.found j hj)
  rw [serves_iff hinode, Holds, Bool.and_eq_true_iff, pidSearchFdInode, List.contains_iff_mem,
    started] at hserves
  rcases List.mem_append.mp hserves.2 with hstd | hown
  · rw [← hinode] at hstd
    exact absurd hstd (hl.std j hj)
  · rw [← hinode, List.mem_singleton] at hown
    exact hl.apart j hj _ h.minor_lt hown

theorem started_tidy (h : Good site host t) (table : List Process) :
    Tidy (started site host t table) := by
  refine Or.inr ?_
  show NUL ∈ (cmdline site t).take 1024
  rw [h.line, argRow, closed_cons]
  have hfront : CF_PORTPROG ++ NUL :: closed NUL ((t.options site).map optArg) =
      (CF_PORTPROG ++ [NUL]) ++ closed NUL ((t.options site).map optArg) := by simp
  rw [hfront, List.take_append]
  exact List.mem_append_left _ (by decide)

end

/-! ## One entry -/

section
variable {site : Site} {host : Host} {t u : TtyInfo} {table : List Process}
  {ports : Nat → Option TtyInfo} {p : Process}

theorem mem_of_daemons {i : Nat} (h : daemons host table i = [p]) :
    p ∈ table ∧ Serves host i p = true := by
  have hmem : p ∈ daemons host table i := h ▸ List.mem_singleton_self p
  exact List.mem_filter.mp hmem

/-- Only the daemons of a port matter to it. -/
theorem PortShows.of_eq {table' : List Process} {i : Nat} {entry : Option TtyInfo}
    (h : PortShows site host table i entry) (hsame : daemons host table' i = daemons host table i) :
    PortShows site host table' i entry := by
  cases entry with
  | none => exact hsame.trans h
  | some u =>
      obtain ⟨hgood, hminor, q, hq, hrest⟩ := h
      exact ⟨hgood, hminor, q, hsame.trans hq, hrest⟩

/-- A process leaves that is the daemon of one port. -/
theorem Shows.kill (h : Shows site host table ports) {i : Nat} (hone : daemons host table i = [p])
    (hlone : ∀ j < VCOM_PORTS, Serves host j p = true → j = i) :
    Shows site host (kill p.pid table) (Function.update ports i none) := by
  have hmem : p ∈ table := (mem_of_daemons hone).1
  refine ⟨?_, ?_, ?_, ?_⟩
  · exact h.nodup.sublist ((List.filter_sublist ..).map _)
  · exact fun q hq => h.pos q (mem_kill.mp hq).1
  · exact fun q hq => h.tidy q (mem_kill.mp hq).1
  · intro j hj
    by_cases hji : j = i
    · rw [hji, Function.update_self]
      exact kill_filter_pos hone
    · have hnot : Serves host j p = false := by
        rw [Bool.eq_false_iff]
        exact fun hs => hji (hlone j hj hs)
      have hsame : daemons host (Service.kill p.pid table) j = daemons host table j :=
        kill_filter_neg h.nodup hmem hnot
      have hport := h.port j hj
      rw [Function.update_of_ne hji]
      exact hport.of_eq hsame

/-- The daemon of an entry comes, on a port where there is none. -/
theorem Shows.enter (hl : Loaded host) (h : Shows site host table ports) (ht : Good site host t)
    (hnone : ports (minor t) = none) :
    Shows site host (enter (started site host t table) table)
      (Function.update ports (minor t) (some t)) := by
  have hfresh : ∀ q ∈ table, q.pid ≠ (started site host t table).pid := host.fork_fresh table
  refine ⟨?_, ?_, ?_, ?_⟩
  · refine (List.Perm.nodup_iff ((enter_perm _ table).map Process.pid)).mpr ?_
    rw [List.map_cons, List.nodup_cons]
    refine ⟨fun hmem => ?_, h.nodup⟩
    obtain ⟨q, hq, hpid⟩ := List.mem_map.mp hmem
    exact hfresh q hq hpid
  · intro q hq
    rcases mem_enter.mp hq with rfl | hq
    · exact host.fork_pos table
    · exact h.pos q hq
  · intro q hq
    rcases mem_enter.mp hq with rfl | hq
    · exact started_tidy ht table
    · exact h.tidy q hq
  · intro j hj
    have hport := h.port j hj
    by_cases hji : j = minor t
    · rw [hji, Function.update_self]
      rw [hji, hnone] at hport
      exact ⟨ht, rfl, _, enter_filter_pos (started_serves hl ht table) hport, rfl,
        fun k hk hs => started_lone hl ht table hk hs⟩
    · have hnot : Serves host j (started site host t table) = false := by
        rw [Bool.eq_false_iff]
        exact fun hs => hji (started_lone hl ht table hj hs)
      have hsame : daemons host (Service.enter (started site host t table) table) j =
          daemons host table j := enter_filter_neg hnot
      rw [Function.update_of_ne hji]
      exact hport.of_eq hsame

/-- What a round does to the table, by what runs on the port of the entry. -/
inductive Round (site : Site) (host : Host) (t : TtyInfo) (table : List Process) :
    Option TtyInfo → List Process → Prop
  | same : Round site host t table (some t) table
  | start : Round site host t table none (enter (started site host t table) table)
  | change {u : TtyInfo} {p : Process} : u ≠ t → daemons host table (minor t) = [p] →
      Round site host t table (some u)
        (enter (started site host t (kill p.pid table)) (kill p.pid table))

theorem find?_of_daemons {i inode : Nat} (hinode : host.stat (filename i) = some inode) :
    table.find? (Holds inode) = (daemons host table i).head? := by
  have hsame : Serves host i = Holds inode := funext fun _ => serves_iff hinode
  rw [daemons, hsame, List.head?_filter]

/-- What is found on port `i` where the daemon of an entry runs. -/
def Finds (site : Site) (host : Host) (table : List Process) (i : Nat) :
    Option TtyInfo → Found → Prop
  | none, found => found = .noDaemon
  | some u, found => Good site host u ∧ ∃ p junk, daemons host table i = [p] ∧
      found = .daemon p.pid (cmdline site u ++ junk) (cmdline site u).length

/-- What `spawn_ttyp` finds for an entry is what runs on its port. -/
theorem look_finds (hl : Loaded host) (h : Shows site host table ports) (ht : Good site host t)
    (oldcmd : List Char) :
    Finds site host table (minor t) (ports (minor t)) (look host t oldcmd table).1 := by
  obtain ⟨inode, hinode⟩ := Option.isSome_iff_exists.mp (hl.found _ ht.minor_lt)
  have hport := h.port _ ht.minor_lt
  have hsearch := cmdInodeSearchPid_reports inode (show 1024 ≤ 2048 by decide) h.tidy oldcmd
  rw [find?_of_daemons hinode] at hsearch
  cases hentry : ports (minor t) with
  | none =>
      rw [hentry] at hport
      rw [show daemons host table (minor t) = [] from hport] at hsearch
      rcases hr : cmdInodeSearchPid CF_PORTPROG inode 2048 oldcmd table with ⟨found, buf⟩
      rw [hr] at hsearch
      obtain rfl : found = none := hsearch
      show (look host t oldcmd table).1 = .noDaemon
      simp only [look, ht.vcomif, hinode, hr]
  | some u =>
      rw [hentry] at hport
      obtain ⟨hgood, -, p, hone, hline, -⟩ := hport
      rw [hone] at hsearch
      obtain ⟨junk, hr⟩ := hsearch
      rw [hline, hgood.take_line (by decide)] at hr
      refine ⟨hgood, p, junk, hone, ?_⟩
      simp only [look, ht.vcomif, hinode, hr]

/-- **One round** of `spawn_ttyp`. -/
theorem spawnRound_cases (hl : Loaded host) (h : Shows site host table ports)
    (ht : Good site host t) (oldcmd : List Char) :
    (look host t oldcmd table).1 ≠ .noInterface ∧
      Round site host t table (ports (minor t))
        (spawnRound site host false t (look host t oldcmd table).1 table) := by
  have hlook := look_finds hl h ht oldcmd
  cases hentry : ports (minor t) with
  | none =>
      rw [hentry] at hlook
      rw [show (look host t oldcmd table).1 = .noDaemon from hlook]
      refine ⟨Found.noConfusion, ?_⟩
      have hdone : spawnRound site host false t .noDaemon table =
          enter (started site host t table) table := system_good hl ht table
      rw [hdone]
      exact .start
  | some u =>
      rw [hentry] at hlook
      obtain ⟨hu, p, junk, hone, hfound⟩ := hlook
      rw [hfound]
      refine ⟨Found.noConfusion, ?_⟩
      by_cases htu : t = u
      · have hzero := (ht.oldcmdCmp_iff hu junk).mpr htu
        have hdone : spawnRound site host false t
            (.daemon p.pid (cmdline site u ++ junk) (cmdline site u).length) table = table := by
          simp only [spawnRound, spawnOne, hzero, if_true]
          rfl
        rw [hdone, ← htu]
        exact .same
      · have hdiff : ¬ oldcmdCmp site (cmdline site u ++ junk) (cmdline site u).length t = 0 :=
          fun hzero => htu ((ht.oldcmdCmp_iff hu junk).mp hzero)
        have hmem : p ∈ table := (mem_of_daemons hone).1
        have hdone : spawnRound site host false t
            (.daemon p.pid (cmdline site u ++ junk) (cmdline site u).length) table =
            enter (started site host t (Service.kill p.pid table)) (Service.kill p.pid table) := by
          simp only [spawnRound, spawnOne, if_neg hdiff, if_pos (h.pos p hmem)]
          exact system_good hl ht _
        rw [hdone]
        exact .change (Ne.symm htu) hone

/-- The daemon of an entry on its port. -/
def put (ports : Nat → Option TtyInfo) (t : TtyInfo) : Nat → Option TtyInfo :=
  Function.update ports (minor t) (some t)

theorem Round.shows (hl : Loaded host) (h : Shows site host table ports) (ht : Good site host t)
    {table' : List Process} (hround : Round site host t table (ports (minor t)) table') :
    Shows site host table' (put ports t) := by
  generalize hentry : ports (minor t) = entry at hround
  cases hround with
  | same =>
      have hput : put ports t = ports := Function.update_eq_self_iff.mpr hentry.symm
      rw [hput]
      exact h
  | start => exact h.enter hl ht hentry
  | change _ hone =>
      have hport := h.port _ ht.minor_lt
      rw [hentry] at hport
      obtain ⟨-, -, q, hq, -, hlone⟩ := hport
      obtain rfl : q = _ := List.singleton_injective (hq.symm.trans hone)
      have hgone := h.kill hone hlone
      have hcome := hgone.enter hl ht (Function.update_self ..)
      rw [Function.update_idem] at hcome
      exact hcome

/-- Where the entry runs already, nothing happens. -/
theorem Round.still {table' : List Process} (hround : Round site host t table (some t) table') :
    table' = table := by
  generalize hentry : some t = entry at hround
  cases hround with
  | same => rfl
  | start => cases hentry
  | change hne _ => exact absurd (Option.some.inj hentry).symm hne

/-! ## Moves

From one table to another, which daemons change is told by the ports. -/

/-- A process stays unless something else is to run on a port of its own, and a new one is on
such a port. -/
structure Moves (host : Host) (table : List Process) (ports : Nat → Option TtyInfo)
    (table' : List Process) (ports' : Nat → Option TtyInfo) : Prop where
  kept : ∀ p ∈ table, (∀ i < VCOM_PORTS, Serves host i p = true → ports' i = ports i) → p ∈ table'
  new : ∀ p ∈ table', p ∈ table ∨ ∃ i < VCOM_PORTS, Serves host i p = true ∧ ports' i ≠ ports i

theorem Moves.refl (host : Host) (table : List Process) (ports : Nat → Option TtyInfo) :
    Moves host table ports table ports :=
  ⟨fun _ hp _ => hp, fun _ hp => Or.inl hp⟩

/-- Moves that do not change the same port follow each other. -/
theorem Moves.trans {table₁ table₂ : List Process} {ports₁ ports₂ : Nat → Option TtyInfo}
    (h₁ : Moves host table ports table₁ ports₁) (h₂ : Moves host table₁ ports₁ table₂ ports₂)
    (hapart : ∀ i, ports₁ i = ports i ∨ ports₂ i = ports₁ i) :
    Moves host table ports table₂ ports₂ where
  kept := by
    intro p hp hsame
    have hmid : ∀ i < VCOM_PORTS, Serves host i p = true → ports₁ i = ports i := by
      intro i hi hs
      rcases hapart i with h | h
      · exact h
      · exact h.symm.trans (hsame i hi hs)
    refine h₂.kept p (h₁.kept p hp hmid) fun i hi hs => ?_
    exact (hsame i hi hs).trans (hmid i hi hs).symm
  new := by
    intro p hp
    rcases h₂.new p hp with hp | ⟨i, hi, hs, hne⟩
    · rcases h₁.new p hp with hp | ⟨i, hi, hs, hne⟩
      · exact Or.inl hp
      · rcases hapart i with h | h
        · exact absurd h hne
        · exact Or.inr ⟨i, hi, hs, by rw [h]; exact hne⟩
    · rcases hapart i with h | h
      · exact Or.inr ⟨i, hi, hs, by rw [← h]; exact hne⟩
      · exact absurd h hne

theorem Round.moves (hl : Loaded host) (h : Shows site host table ports) (ht : Good site host t)
    {table' : List Process} (hround : Round site host t table (ports (minor t)) table') :
    Moves host table ports table' (put ports t) := by
  generalize hentry : ports (minor t) = entry at hround
  have hput : put ports t (minor t) = some t := Function.update_self ..
  have hnew (table₀ : List Process) (hne : entry ≠ some t) : ∃ i < VCOM_PORTS,
      Serves host i (started site host t table₀) = true ∧ put ports t i ≠ ports i := by
    refine ⟨minor t, ht.minor_lt, started_serves hl ht table₀, ?_⟩
    rw [hput, hentry]
    exact Ne.symm hne
  cases hround with
  | same =>
      have hsame : put ports t = ports := Function.update_eq_self_iff.mpr hentry.symm
      rw [hsame]
      exact .refl host table ports
  | start =>
      refine ⟨fun p hp _ => mem_enter.mpr (Or.inr hp), fun p hp => ?_⟩
      rcases mem_enter.mp hp with rfl | hp
      · exact Or.inr (hnew table (Option.some_ne_none t).symm)
      · exact Or.inl hp
  | @change u q hne hone =>
      obtain ⟨hq, hserves⟩ := mem_of_daemons hone
      have hne' : some u ≠ some t := fun h => hne (Option.some.inj h)
      refine ⟨fun p hp hsame => mem_enter.mpr (Or.inr (mem_kill.mpr ⟨hp, fun hpid => ?_⟩)),
        fun p hp => ?_⟩
      · obtain rfl : p = q := List.inj_on_of_nodup_map h.nodup hp hq hpid
        have hthere := hsame _ ht.minor_lt hserves
        rw [hput, hentry] at hthere
        exact hne' hthere.symm
      · rcases mem_enter.mp hp with rfl | hp
        · exact Or.inr (hnew _ hne')
        · exact Or.inl (mem_kill.mp hp).1

/-! ## All entries -/

theorem foldl_put_of_not_mem {ttyinfo : List TtyInfo} {i : Nat} (h : i ∉ ttyinfo.map minor) :
    ttyinfo.foldl put ports i = ports i := by
  induction ttyinfo generalizing ports with
  | nil => rfl
  | cons t ttyinfo ih =>
      rw [List.map_cons, List.mem_cons, not_or] at h
      rw [List.foldl_cons, ih h.2, put, Function.update_of_ne h.1]

/-- With one entry a port, each port has its entry in the end. -/
theorem foldl_put_of_mem {ttyinfo : List TtyInfo} (hnodup : (ttyinfo.map minor).Nodup)
    (ht : t ∈ ttyinfo) : ttyinfo.foldl put ports (minor t) = some t := by
  induction ttyinfo generalizing ports with
  | nil => cases ht
  | cons u ttyinfo ih =>
      rw [List.map_cons, List.nodup_cons] at hnodup
      rw [List.foldl_cons]
      rcases List.mem_cons.mp ht with rfl | ht
      · rw [foldl_put_of_not_mem hnodup.1]
        exact Function.update_self ..
      · exact ih hnodup.2 ht

/-- The loop goes through a round for each entry. -/
theorem spawnLoop_cons (hl : Loaded host) (h : Shows site host table ports) (ht : Good site host t)
    (ttyinfo : List TtyInfo) (oldcmd : List Char) : ∃ table' oldcmd',
      Round site host t table (ports (minor t)) table' ∧
      spawnLoop site host false (t :: ttyinfo) oldcmd table =
        spawnLoop site host false ttyinfo oldcmd' table' := by
  obtain ⟨hsome, hround⟩ := spawnRound_cases hl h ht oldcmd
  rcases hlook : look host t oldcmd table with ⟨found, oldcmd'⟩
  rw [hlook] at hsome hround
  refine ⟨_, oldcmd', hround, ?_⟩
  rw [spawnLoop, hlook]
  cases found with
  | noInterface => exact absurd rfl hsome
  | noDaemon => rfl
  | daemon pid cmd len => rfl

theorem spawnLoop_shows (hl : Loaded host) {ttyinfo : List TtyInfo}
    (hgood : ∀ t ∈ ttyinfo, Good site host t) (h : Shows site host table ports)
    (oldcmd : List Char) :
    Shows site host (spawnLoop site host false ttyinfo oldcmd table) (ttyinfo.foldl put ports) := by
  induction ttyinfo generalizing table ports oldcmd with
  | nil => exact h
  | cons t ttyinfo ih =>
      have ht := hgood t List.mem_cons_self
      obtain ⟨table', oldcmd', hround, hloop⟩ := spawnLoop_cons hl h ht ttyinfo oldcmd
      rw [hloop, List.foldl_cons]
      exact ih (fun u hu => hgood u (List.mem_cons_of_mem _ hu)) (hround.shows hl h ht) oldcmd'

theorem spawnLoop_moves (hl : Loaded host) {ttyinfo : List TtyInfo}
    (hgood : ∀ t ∈ ttyinfo, Good site host t) (hnodup : (ttyinfo.map minor).Nodup)
    (h : Shows site host table ports) (oldcmd : List Char) :
    Moves host table ports (spawnLoop site host false ttyinfo oldcmd table)
      (ttyinfo.foldl put ports) := by
  induction ttyinfo generalizing table ports oldcmd with
  | nil => exact .refl host table ports
  | cons t ttyinfo ih =>
      have ht := hgood t List.mem_cons_self
      obtain ⟨table', oldcmd', hround, hloop⟩ := spawnLoop_cons hl h ht ttyinfo oldcmd
      rw [List.map_cons, List.nodup_cons] at hnodup
      rw [hloop, List.foldl_cons]
      refine (hround.moves hl h ht).trans (ih (fun u hu => hgood u (List.mem_cons_of_mem _ hu))
        hnodup.2 (hround.shows hl h ht) oldcmd') fun i => ?_
      by_cases hi : i = minor t
      · rw [hi]
        exact Or.inr (foldl_put_of_not_mem hnodup.1)
      · exact Or.inl (Function.update_of_ne hi ..)

/-- Entries that all run already. -/
theorem spawnLoop_still (hl : Loaded host) {ttyinfo : List TtyInfo}
    (hgood : ∀ t ∈ ttyinfo, Good site host t) (hruns : ∀ t ∈ ttyinfo, ports (minor t) = some t)
    (h : Shows site host table ports) (oldcmd : List Char) :
    spawnLoop site host false ttyinfo oldcmd table = table := by
  induction ttyinfo generalizing oldcmd with
  | nil => rfl
  | cons t ttyinfo ih =>
      have ht := hgood t List.mem_cons_self
      obtain ⟨table', oldcmd', hround, hloop⟩ := spawnLoop_cons hl h ht ttyinfo oldcmd
      rw [hruns t List.mem_cons_self] at hround
      rw [hloop, hround.still]
      exact ih (fun u hu => hgood u (List.mem_cons_of_mem _ hu))
        (fun u hu => hruns u (List.mem_cons_of_mem _ hu)) oldcmd'

/-! ## The ports that are not configured -/

/-- The ports below `n` that have no entry are empty. -/
def cleared (ttyinfo : List TtyInfo) (n : Nat) (ports : Nat → Option TtyInfo) :
    Nat → Option TtyInfo :=
  fun i => if i < n ∧ i ∉ ttyinfo.map minor then none else ports i

theorem Good.any_iff {ttyinfo : List TtyInfo} (hgood : ∀ t ∈ ttyinfo, Good site host t) (i : Nat) :
    ttyinfo.any (fun t => atoi t.mptNameidxStr = i) = true ↔ i ∈ ttyinfo.map minor := by
  rw [List.any_eq_true, List.mem_map]
  refine exists_congr fun t => and_congr_right fun ht => ?_
  have hatoi : atoi t.mptNameidxStr = minor t := by
    have hports : VCOM_PORTS = 256 := rfl
    have hlt := (hgood t ht).minor_lt
    have hsmall : minor t < 2 ^ 31 := by omega
    rw [(hgood t ht).name]
    exact atoi_repr hsmall
  rw [decide_eq_true_iff, hatoi, Int.natCast_inj]

/-- What a round of `cleanup_ttyp` does to the table. -/
inductive Cleans (host : Host) (configured : Prop) (table : List Process) (i : Nat) :
    Option TtyInfo → List Process → Prop
  | empty : Cleans host configured table i none table
  | wanted {u : TtyInfo} : configured → Cleans host configured table i (some u) table
  | stray {u : TtyInfo} {p : Process} : ¬ configured → daemons host table i = [p] →
      Cleans host configured table i (some u) (kill p.pid table)

theorem cleanupRound_cleans (hl : Loaded host) {ttyinfo : List TtyInfo}
    (hgood : ∀ t ∈ ttyinfo, Good site host t) (h : Shows site host table ports)
    {i : Nat} (hi : i < VCOM_PORTS) (cmd : List Char) :
    Cleans host (i ∈ ttyinfo.map minor) table i (ports i)
      (cleanupRound host false ttyinfo (cmd, table) i).2 := by
  obtain ⟨inode, hinode⟩ := Option.isSome_iff_exists.mp (hl.found i hi)
  have hport := h.port i hi
  have hsearch := cmdInodeSearchPid_reports inode (Nat.le_refl 1024) h.tidy cmd
  rw [find?_of_daemons hinode] at hsearch
  rcases hr : cmdInodeSearchPid CF_PORTPROG inode 1024 cmd table with ⟨found, buf⟩
  rw [hr] at hsearch
  rw [cleanupRound]
  simp only [hinode, hr]
  cases hentry : ports i with
  | none =>
      rw [hentry] at hport
      rw [show daemons host table i = [] from hport] at hsearch
      obtain rfl : found = none := hsearch
      exact .empty
  | some u =>
      rw [hentry] at hport
      obtain ⟨-, -, p, hone, -⟩ := hport
      rw [hone] at hsearch
      obtain ⟨junk, hfound⟩ := hsearch
      obtain ⟨rfl, -⟩ := Prod.mk.inj hfound
      simp only
      split
      · rename_i hany
        exact .wanted ((Good.any_iff hgood i).mp (hany.resolve_right Bool.false_ne_true))
      · rename_i hany
        exact .stray (fun hconf => hany (Or.inl ((Good.any_iff hgood i).mpr hconf))) hone

theorem cleared_succ {ttyinfo : List TtyInfo} {n : Nat} :
    cleared ttyinfo (n + 1) ports =
      if n ∈ ttyinfo.map minor then cleared ttyinfo n ports
      else Function.update (cleared ttyinfo n ports) n none := by
  funext i
  split
  · rename_i hconf
    by_cases hin : i = n
    · simp [cleared, hin, hconf]
    · have hlt : i < n + 1 ↔ i < n := by omega
      simp only [cleared, hlt]
  · rename_i hconf
    by_cases hin : i = n
    · rw [hin, Function.update_self, cleared, if_pos ⟨Nat.lt_succ_self n, hconf⟩]
    · have hlt : i < n + 1 ↔ i < n := by omega
      rw [Function.update_of_ne hin]
      simp only [cleared, hlt]

/-- The ports after a round of `cleanup_ttyp`. -/
theorem Cleans.shows {configured : Prop} [Decidable configured] {table' : List Process} {i : Nat}
    (hi : i < VCOM_PORTS) (h : Shows site host table ports)
    (hclean : Cleans host configured table i (ports i) table') :
    Shows site host table' (if configured then ports else Function.update ports i none) ∧
      Moves host table ports table' (if configured then ports else Function.update ports i none) := by
  generalize hentry : ports i = entry at hclean
  cases hclean with
  | empty =>
      have hsame : Function.update ports i none = ports := Function.update_eq_self_iff.mpr hentry.symm
      rw [hsame, ite_self]
      exact ⟨h, .refl host table ports⟩
  | wanted hconf =>
      rw [if_pos hconf]
      exact ⟨h, .refl host table ports⟩
  | @stray u p hconf hone =>
      have hport := h.port i hi
      rw [hentry] at hport
      obtain ⟨-, -, q, hq, -, hlone⟩ := hport
      obtain rfl : q = p := List.singleton_injective (hq.symm.trans hone)
      obtain ⟨hmem, hserves⟩ := mem_of_daemons hone
      rw [if_neg hconf]
      refine ⟨h.kill hone hlone, fun x hx hsame => mem_kill.mpr ⟨hx, fun hpid => ?_⟩,
        fun x hx => Or.inl (mem_kill.mp hx).1⟩
      obtain rfl : x = q := List.inj_on_of_nodup_map h.nodup hx hmem hpid
      have hthere := hsame i hi hserves
      rw [Function.update_self, hentry] at hthere
      cases hthere

theorem cleanup_shows (hl : Loaded host) {ttyinfo : List TtyInfo}
    (hgood : ∀ t ∈ ttyinfo, Good site host t) (h : Shows site host table ports) (cmd : List Char)
    {n : Nat} (hn : n ≤ VCOM_PORTS) :
    Shows site host ((List.range n).foldl (cleanupRound host false ttyinfo) (cmd, table)).2
        (cleared ttyinfo n ports) ∧
      Moves host table ports ((List.range n).foldl (cleanupRound host false ttyinfo) (cmd, table)).2
        (cleared ttyinfo n ports) := by
  induction n with
  | zero =>
      have hsame : cleared ttyinfo 0 ports = ports := funext fun i => by simp [cleared]
      rw [hsame]
      exact ⟨h, .refl host table ports⟩
  | succ n ih =>
      obtain ⟨hshows, hmoves⟩ := ih (by omega)
      rw [List.range_succ, List.foldl_append, List.foldl_cons, List.foldl_nil, cleared_succ]
      generalize (List.range n).foldl (cleanupRound host false ttyinfo) (cmd, table) = st at hshows hmoves
      have hclean := cleanupRound_cleans hl hgood hshows (show n < VCOM_PORTS by omega) st.1
      obtain ⟨hshows', hmoves'⟩ := hclean.shows (show n < VCOM_PORTS by omega) hshows
      refine ⟨hshows', hmoves.trans hmoves' fun i => ?_⟩
      by_cases hin : i = n
      · exact Or.inl (by rw [hin, cleared, if_neg fun hlt => absurd hlt.1 (Nat.lt_irrefl n)])
      · refine Or.inr ?_
        split
        · rfl
        · exact Function.update_of_ne hin ..

/-- Where no stray daemon runs, nothing is killed. -/
theorem cleanup_still (hl : Loaded host) {ttyinfo : List TtyInfo}
    (hgood : ∀ t ∈ ttyinfo, Good site host t) (h : Shows site host table ports)
    (hnone : ∀ i < VCOM_PORTS, i ∉ ttyinfo.map minor → ports i = none) (cmd : List Char)
    {n : Nat} (hn : n ≤ VCOM_PORTS) :
    ((List.range n).foldl (cleanupRound host false ttyinfo) (cmd, table)).2 = table := by
  induction n with
  | zero => rfl
  | succ n ih =>
      have hsame := ih (by omega)
      rw [List.range_succ, List.foldl_append, List.foldl_cons, List.foldl_nil]
      generalize (List.range n).foldl (cleanupRound host false ttyinfo) (cmd, table) = st at hsame
      obtain ⟨buf, table'⟩ := st
      obtain rfl : table' = table := hsame
      have hclean := cleanupRound_cleans hl hgood h (show n < VCOM_PORTS by omega) buf
      generalize hentry : ports n = entry at hclean
      generalize cleanupRound host false ttyinfo (buf, table') n = st at hclean
      obtain ⟨buf', table''⟩ := st
      cases hclean with
      | empty => rfl
      | wanted _ => rfl
      | stray hconf _ =>
          rw [hnone n (by omega) hconf] at hentry
          cases hentry

/-! ## Whole runs -/

/-- What is to run after a run of `advttyd`. -/
def wanted (r : Run) (ports : Nat → Option TtyInfo) : Nat → Option TtyInfo :=
  if r.testrun ∨ r.ttyinfo = [] then ports
  else r.ttyinfo.foldl put (if r.cleanup then cleared r.ttyinfo VCOM_PORTS ports else ports)

/-- A test run touches nothing. -/
theorem main_testrun {r : Run} (hr : r.testrun = true) : main site host r table = table := by
  have hspawn : ∀ ttyinfo oldcmd table, spawnLoop site host true ttyinfo oldcmd table = table := by
    intro ttyinfo
    induction ttyinfo with
    | nil => exact fun _ _ => rfl
    | cons t ttyinfo ih =>
        intro oldcmd table
        rw [spawnLoop]
        split
        · rfl
        · exact ih _ _
  have hclean : ∀ ports : List Nat, ∀ st,
      (ports.foldl (cleanupRound host true r.ttyinfo) st).2 = st.2 := by
    intro ports
    induction ports with
    | nil => exact fun _ => rfl
    | cons i ports ih =>
        intro st
        rw [List.foldl_cons, ih, cleanupRound]
        split
        · rfl
        · split
          · rfl
          · simp
  rw [main, hr, hspawn]
  split
  · rfl
  · split
    · exact hclean _ _
    · rfl

theorem main_idle (site : Site) (host : Host) {r : Run}
    (hr : r.testrun = true ∨ r.ttyinfo = []) (table : List Process)
    (ports : Nat → Option TtyInfo) :
    main site host r table = table ∧ wanted r ports = ports := by
  refine ⟨?_, if_pos hr⟩
  rcases hr with htest | hnil
  · exact main_testrun htest
  · exact if_pos hnil

/-- A run that is not idle: what the cleanup leaves, and then the entries. -/
theorem main_busy (hl : Loaded host) {r : Run} (hr : ¬ (r.testrun = true ∨ r.ttyinfo = []))
    (hgood : ∀ t ∈ r.ttyinfo, Good site host t) (h : Shows site host table ports) :
    ∃ table₀ ports₀, Shows site host table₀ ports₀ ∧ Moves host table ports table₀ ports₀ ∧
      (∀ i ∈ r.ttyinfo.map minor, ports₀ i = ports i) ∧
      main site host r table = spawnLoop site host false r.ttyinfo r.oldcmd table₀ ∧
      wanted r ports = r.ttyinfo.foldl put ports₀ := by
  obtain ⟨htest, hnil⟩ := not_or.mp hr
  rw [main, wanted, if_neg hr, if_neg hnil, Bool.eq_false_iff.mpr htest]
  cases r.cleanup with
  | true =>
      obtain ⟨hclean, hmoves⟩ := cleanup_shows hl hgood h r.cmd (Nat.le_refl _)
      exact ⟨_, _, hclean, hmoves, fun i hi => if_neg fun hand => hand.2 hi, rfl, rfl⟩
  | false => exact ⟨table, ports, h, .refl host table ports, fun _ _ => rfl, rfl, rfl⟩

theorem main_shows (hl : Loaded host) {r : Run} (hgood : ∀ t ∈ r.ttyinfo, Good site host t)
    (h : Shows site host table ports) :
    Shows site host (main site host r table) (wanted r ports) := by
  by_cases hr : r.testrun = true ∨ r.ttyinfo = []
  · obtain ⟨hmain, hwanted⟩ := main_idle site host hr table ports
    rw [hmain, hwanted]
    exact h
  · obtain ⟨table₀, ports₀, hshows, -, -, hmain, hwanted⟩ := main_busy hl hr hgood h
    rw [hmain, hwanted]
    exact spawnLoop_shows hl hgood hshows r.oldcmd

/-- With one entry a port, what a run wants is there after it. -/
theorem wanted_entry {r : Run} (htest : r.testrun = false) (hnodup : (r.ttyinfo.map minor).Nodup)
    (ports : Nat → Option TtyInfo) :
    (∀ t ∈ r.ttyinfo, wanted r ports (minor t) = some t) ∧
      (r.ttyinfo ≠ [] → ∀ i, i ∉ r.ttyinfo.map minor →
        wanted r ports i = if r.cleanup ∧ i < VCOM_PORTS then none else ports i) := by
  have hrun (hne : r.ttyinfo ≠ []) : ¬ (r.testrun = true ∨ r.ttyinfo = []) := by
    rw [htest]
    exact fun hor => hor.elim Bool.noConfusion hne
  constructor
  · intro t ht
    rw [wanted, if_neg (hrun (List.ne_nil_of_mem ht))]
    exact foldl_put_of_mem hnodup ht
  · intro hne i hi
    rw [wanted, if_neg (hrun hne), foldl_put_of_not_mem hi]
    cases r.cleanup with
    | true =>
        by_cases hlt : i < VCOM_PORTS
        · rw [if_pos rfl, if_pos ⟨rfl, hlt⟩, cleared, if_pos ⟨hlt, hi⟩]
        · rw [if_pos rfl, if_neg fun hand => hlt hand.2, cleared, if_neg fun hand => hlt hand.1]
    | false => rfl

/-- A machine where the file of a port has the number of the port as its inode. -/
def box : Host where
  stat := fun f => some (atoi (f.drop 18)).toNat
  tls := fun _ => .ready
  std := [none, none, none]
  fork := fun table => (table.map Process.pid).max?.getD 0 + 1
  fork_pos := fun _ => Nat.succ_pos _
  fork_fresh := fun _ _ hp =>
    Nat.ne_of_lt (Nat.lt_succ_of_le (List.le_max?_getD_of_mem (List.mem_map_of_mem hp)))

theorem box_loaded : Loaded box := by
  have hports : VCOM_PORTS = 256 := rfl
  have hstat : ∀ i < VCOM_PORTS, box.stat (filename i) = some i := by
    intro i hi
    have hread : atoi (Nat.repr i).toList = i := atoi_repr (by omega)
    show some (atoi (Nat.repr i).toList).toNat = some i
    rw [hread, Int.toNat_natCast]
  refine ⟨fun i hi => ?_, fun i hi j hj h => ?_, fun i hi => ?_⟩
  · rw [hstat i hi]
    rfl
  · rw [hstat i hi, hstat j hj] at h
    exact Option.some.inj h
  · rw [hstat i hi]
    simp [box]

theorem box_good {file : List Char} (h : ∀ t ∈ paserConfig file,
      (∃ i < VCOM_PORTS, t.mptNameidxStr = (Nat.repr i).toList) ∧ t.Plain ∧ t.Fits advtty ∧
      ∀ f ∈ t.options advtty, '-' ∉ f.2) :
    ∀ t ∈ paserConfig file, Good advtty box t := by
  intro t ht
  obtain ⟨hport, hplain, hfits, hdash⟩ := h t ht
  exact ⟨⟨file, ht⟩, hport, hplain, hfits, fun o _ => clear_of_no_dash hdash o, fun _ => rfl⟩

theorem shows_nil (site : Site) (host : Host) : Shows site host [] fun _ => none :=
  ⟨List.nodup_nil, fun _ h => absurd h List.not_mem_nil, fun _ h => absurd h List.not_mem_nil,
    fun _ _ => rfl⟩

/-- Two devices, and then the second port goes to another one. -/
def installed : Run :=
  ⟨false, false, some "7 1322 10.0.0.1 1\n8 1322 10.0.0.2 1\n".toList, [], []⟩

def replaced : Run :=
  ⟨true, false, some "7 1322 10.0.0.1 1\n9 ssl:1524 10.0.0.3 2\n".toList, [], []⟩

theorem installed_good : ∀ t ∈ installed.ttyinfo, Good advtty box t := box_good (by decide +kernel)

theorem replaced_good : ∀ t ∈ replaced.ttyinfo, Good advtty box t := box_good (by decide +kernel)

theorem replaced_nodup : (replaced.ttyinfo.map minor).Nodup := by decide +kernel

/-- **Any number of runs**, each with its own options and configuration, leave the daemons
that they are to leave. -/
theorem runs_refine (site : Site) (host : Host) (hl : Loaded host) (runs : List Run)
    (hgood : ∀ r ∈ runs, ∀ t ∈ r.ttyinfo, Good site host t) (table : List Process)
    (ports : Nat → Option TtyInfo) (h : Shows site host table ports) :
    Shows site host (runs.foldl (fun table r => main site host r table) table)
      (runs.foldl (fun ports r => wanted r ports) ports) := by
  induction runs generalizing table ports with
  | nil => exact h
  | cons r runs ih =>
      exact ih (fun q hq => hgood q (List.mem_cons_of_mem _ hq)) _ _
        (main_shows hl (hgood r List.mem_cons_self) h)

/-- In the end port 8 is free and port 9 has its daemon. -/
theorem runs_refine_replaced :
    daemons box (main advtty box replaced (main advtty box installed [])) 8 = [] ∧
      ∃ p, daemons box (main advtty box replaced (main advtty box installed [])) 9 = [p] ∧
        p.cmdline = closed NUL (["vcomd", "-l/tmp/advmon/advtty9", "-t9", "-d1524", "-a10.0.0.3",
          "-p2", "-S/usr/local/advtty/ssl.json"].map String.toList) := by
  have hshows := runs_refine advtty box box_loaded [installed, replaced]
    (List.forall_mem_cons.mpr ⟨installed_good, List.forall_mem_singleton.mpr replaced_good⟩) []
    (fun _ => none) (shows_nil advtty box)
  repeat rw [List.foldl_cons] at hshows
  rw [List.foldl_nil, List.foldl_nil] at hshows
  obtain ⟨hentry, hother⟩ := wanted_entry rfl replaced_nodup (wanted installed fun _ => none)
  have hmem : (⟨"9".toList, "1524".toList, "10.0.0.3".toList, "2".toList, [], false, true⟩ : TtyInfo) ∈
      replaced.ttyinfo := by decide +kernel
  have hfree := hshows.port 8 (by decide)
  have hport := hshows.port 9 (by decide)
  rw [hother (List.ne_nil_of_mem hmem) 8 (by decide +kernel), if_pos ⟨rfl, by decide⟩] at hfree
  have hnine := hentry _ hmem
  rw [show minor _ = 9 by decide +kernel] at hnine
  rw [hnine] at hport
  obtain ⟨-, -, p, hone, hline, -⟩ := hport
  exact ⟨hfree, p, hone, hline.trans (by decide +kernel)⟩

theorem main_moves (hl : Loaded host) {r : Run} (hgood : ∀ t ∈ r.ttyinfo, Good site host t)
    (hnodup : (r.ttyinfo.map minor).Nodup) (h : Shows site host table ports) :
    Moves host table ports (main site host r table) (wanted r ports) := by
  by_cases hr : r.testrun = true ∨ r.ttyinfo = []
  · obtain ⟨hmain, hwanted⟩ := main_idle site host hr table ports
    rw [hmain, hwanted]
    exact .refl host table ports
  · obtain ⟨table₀, ports₀, hshows, hmoves, hsame, hmain, hwanted⟩ := main_busy hl hr hgood h
    rw [hmain, hwanted]
    refine hmoves.trans (spawnLoop_moves hl hgood hnodup hshows r.oldcmd) fun i => ?_
    -- the cleanup and the entries are about different ports
    by_cases hi : i ∈ r.ttyinfo.map minor
    · exact Or.inl (hsame i hi)
    · exact Or.inr (foldl_put_of_not_mem hi)

/-- The run that is wanted already does nothing. -/
theorem main_still (hl : Loaded host) {r : Run} (hgood : ∀ t ∈ r.ttyinfo, Good site host t)
    (hruns : ∀ t ∈ r.ttyinfo, ports (minor t) = some t)
    (hnone : r.cleanup = true → ∀ i < VCOM_PORTS, i ∉ r.ttyinfo.map minor → ports i = none)
    (h : Shows site host table ports) : main site host r table = table := by
  cases htest : r.testrun with
  | true => exact main_testrun htest
  | false =>
      rw [main, htest]
      split
      · rfl
      · cases hclean : r.cleanup with
        | true =>
            have hsame : cleanupTtyp host false r.ttyinfo r.cmd table = table :=
              cleanup_still hl hgood h (hnone hclean) r.cmd (Nat.le_refl _)
            simp only [if_true, hsame]
            exact spawnLoop_still hl hgood hruns h r.oldcmd
        | false => exact spawnLoop_still hl hgood hruns h r.oldcmd

/-- **A run and the next one.**  With one entry a port, a run ends the daemons of the ports
whose entry changes and starts their new ones, and no others; and run again with the same
configuration, whatever was in its buffers, `advttyd` does nothing. -/
theorem second_run_still (site : Site) (host : Host) (hl : Loaded host) (r : Run)
    (hgood : ∀ t ∈ r.ttyinfo, Good site host t) (hnodup : (r.ttyinfo.map minor).Nodup)
    (htest : r.testrun = false) (table : List Process) (ports : Nat → Option TtyInfo)
    (h : Shows site host table ports) (cmd oldcmd : List Char) :
    Moves host table ports (main site host r table) (wanted r ports) ∧
      main site host { r with cmd := cmd, oldcmd := oldcmd } (main site host r table) =
        main site host r table := by
  refine ⟨main_moves hl hgood hnodup h, ?_⟩
  obtain ⟨hentry, hother⟩ := wanted_entry htest hnodup ports
  by_cases hnil : r.ttyinfo = []
  · exact if_pos hnil
  · have hagain : ∀ i < VCOM_PORTS, i ∉ r.ttyinfo.map minor → r.cleanup = true →
        wanted r ports i = none := by
      intro i hi hnot hclean
      rw [hother hnil i hnot, if_pos ⟨hclean, hi⟩]
    exact main_still hl (r := { r with cmd := cmd, oldcmd := oldcmd }) hgood hentry
      (fun hclean i hi hnot => hagain i hi hnot hclean) (main_shows hl hgood h)

theorem second_run_still_replaced :
    main advtty box { replaced with cmd := ['x'], oldcmd := ['y'] }
        (main advtty box replaced (main advtty box installed [])) =
      main advtty box replaced (main advtty box installed []) :=
  (second_run_still advtty box box_loaded replaced replaced_good replaced_nodup rfl
    (main advtty box installed []) (wanted installed fun _ => none)
    (main_shows box_loaded installed_good (shows_nil advtty box)) ['x'] ['y']).2

end

end AdvVcom.Service
