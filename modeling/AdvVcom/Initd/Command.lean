/-
# `AdvVcom.Initd.Command` — starting `vcomd`, and knowing one that runs

`advttyd` starts one `vcomd` for each entry of its configuration by a shell command
(`_create_syscmd`).  When it is run again it looks for the daemon that has the port
open, reads its argument vector from `/proc`, and compares it with the entry
(`oldcmd_cmp`): if they agree the daemon is left alone, otherwise it is killed and
another one started.

    encoder    `_create_syscmd`, the shell      entry → command → argument vector
    decoder    `__cmd_get_opts`, `__opt_cmp`    argument vector → value of an option

The decoder looks for the two characters of the option anywhere in an argument, the
encoder puts the values of the entry behind such pairs.

The shell is modelled on commands without anything special to it but blanks and the
`&` that `advttyd` appends.  `oldcmd` is a buffer that is used for one daemon after
another, so that behind the argument vector there may be anything.
-/
import AdvVcom.Initd.Config

namespace AdvVcom

open Lib.CStr

/-! ## The encoder -/

def CF_PORTPROG : List Char := "vcomd".toList
def MON_PATH : List Char := "/tmp/advmon".toList
def CF_SSLCONF : List Char := "ssl.json".toList

/-- Blanks, and what a POSIX shell does not take literally. -/
def metachar (c : Char) : Bool := isspace c || c ∈ "|&;<>()$`\\\"'*?[".toList

/-- The option `-w` of `advttyd`: the directory of the configuration. -/
structure Site where
  wpath : List Char
  nul : NUL ∉ wpath
  plain : ∀ c ∈ wpath, metachar c = false

/-- `sslconf`; `work_path` has `PATH_MAX - NAME_MAX` bytes. -/
def Site.sslconf (site : Site) : List Char := site.wpath.take 3840 ++ '/' :: CF_SSLCONF

/-- `mon`, as `spawn_ttyp` sets it for an entry. -/
def TtyInfo.mon (t : TtyInfo) : List Char := MON_PATH ++ "/advtty".toList ++ t.mptNameidxStr

/-- `snprintf`: what stands in a buffer of `n` bytes, and the length of the text. -/
def snprintf (n : Nat) (text : List Char) : List Char × Nat := (text.take (n - 1), text.length)

def createSyscmd (site : Site) (syscmdlen : Nat) (t : TtyInfo) : List Char × Nat :=
  let common := CF_PORTPROG ++ " -l".toList ++ t.mon ++ " -t".toList ++ t.mptNameidxStr ++
    " -d".toList ++ t.devTypeStr ++ " -a".toList ++ t.devIpaddrStr ++ " -p".toList ++
    t.devPortidxStr
  if t.hasRedundantIp then
    if t.devSsl then
      snprintf syscmdlen (common ++ " -r".toList ++ t.devRedundantIpaddrStr ++ " -S".toList ++
        site.sslconf)
    else snprintf syscmdlen (common ++ " -r".toList ++ t.devRedundantIpaddrStr ++ " ".toList)
  else
    if t.devSsl then snprintf syscmdlen (common ++ " -S".toList ++ site.sslconf)
    else snprintf syscmdlen (common ++ " ".toList)

/-- What `spawn_ttyp` gives to `system`: the `&` goes behind the text, if there is room
for it in the 1024 bytes.  (A text that is longer than these is cut, and the `&` is
written outside of them.) -/
def systemArg (site : Site) (t : TtyInfo) : List Char :=
  let (syscmd, cmdidx) := createSyscmd site 1024 t
  syscmd ++ ['&'].take (1024 - cmdidx - 1 - 1)

/-- The words of the command before an `&`. -/
def shellWords (cmd : List Char) : List (List Char) :=
  ((cmd.takeWhile (· ≠ '&')).splitOnP isspace).filter (· ≠ [])

/-- `/proc/<pid>/cmdline` of the `vcomd` started for `t`. -/
def cmdline (site : Site) (t : TtyInfo) : List Char := closed NUL (shellWords (systemArg site t))

/-! ## The decoder -/

/-- The loop of `__cmd_get_opts`, at the argument that begins at `i`. -/
def cmdGetOptsLoop (cmd : List Char) (cmdlen : Nat) (opt : List Char) : Nat → Nat → Option Nat
  | 0, _ => none
  | fuel + 1, i =>
      let arg := upto NUL (cmd.drop i)
      match strstr opt arg with
      | some k =>
          let ptr := i + k + opt.length
          -- the value of an option that is an argument of its own is the next argument
          some (if arg = opt then ptr + 1 else ptr)
      | none =>
          let i := i + arg.length + 1
          if i < cmdlen then cmdGetOptsLoop cmd cmdlen opt fuel i else none

/-- `__cmd_get_opts`: where the value of `opt` begins in `cmd`.  Every round moves `i` up. -/
def cmdGetOpts (cmd : List Char) (cmdlen : Nat) (opt : List Char) : Option Nat :=
  cmdGetOptsLoop cmd cmdlen opt (cmdlen + 1) 0

/-- The string at the place that `__cmd_get_opts` gives. -/
def optValue (cmd : List Char) (cmdlen : Nat) (opt : List Char) : Option (List Char) :=
  (cmdGetOpts cmd cmdlen opt).map fun ptr => upto NUL (cmd.drop ptr)

/-- `strncmp(s, t, n) == 0`. -/
def strncmp (s t : List Char) (n : Nat) : Bool := s.take n == t.take n

/-- `__opt_cmp`; no value is a null pointer. -/
def optCmp (oldcmd : List Char) (oldcmdlen : Nat) (option : List Char)
    (val : Option (List Char)) : Nat :=
  let old := optValue oldcmd oldcmdlen option
  let newoptlen := (val.map fun v => min v.length oldcmdlen).getD 0
  let oldoptlen := (old.map fun v => min v.length oldcmdlen).getD 0
  let strcmplen := if newoptlen > oldoptlen then newoptlen else oldoptlen
  match val, old with
  | none, none => 0
  | none, some _ => 1
  | some _, none => 1
  | some v, some o => if strncmp v o strcmplen then 0 else 1

def oldcmdCmp (site : Site) (oldcmd : List Char) (oldcmdlen : Nat) (t : TtyInfo) : Nat :=
  optCmp oldcmd oldcmdlen "-l".toList (some t.mon) +
    optCmp oldcmd oldcmdlen "-d".toList (some t.devTypeStr) +
    optCmp oldcmd oldcmdlen "-a".toList (some t.devIpaddrStr) +
    optCmp oldcmd oldcmdlen "-p".toList (some t.devPortidxStr) +
    optCmp oldcmd oldcmdlen "-r".toList
      (if t.hasRedundantIp then some t.devRedundantIpaddrStr else none) +
    optCmp oldcmd oldcmdlen "-S".toList (if t.devSsl then some site.sslconf else none)

/-! ## One entry in `spawn_ttyp` -/

/-- What there is for an entry: no file of the driver, no daemon that has it open, or one
with its process id and its argument vector in the first `cmdlen` bytes of `oldcmd`. -/
inductive Found where
  | noInterface
  | noDaemon
  | daemon (pid : Nat) (oldcmd : List Char) (oldcmdlen : Nat)

inductive Deed where
  | kill (pid : Nat)
  | system (cmd : List Char)
  deriving DecidableEq, Repr

/-- One round of the loop, when the driver's file is there. -/
def spawnOne (site : Site) (t : TtyInfo) : Found → List Deed
  | .noInterface => []
  | .noDaemon => [.system (systemArg site t)]
  | .daemon pid oldcmd oldcmdlen =>
      if oldcmdCmp site oldcmd oldcmdlen t = 0 then []
      else (if pid > 0 then [.kill pid] else []) ++ [.system (systemArg site t)]

/-! ## What is asked of them -/

/-- The options that come from the entry itself. -/
def TtyInfo.ownOptions (t : TtyInfo) : List (Char × List Char) :=
  [('l', t.mon), ('t', t.mptNameidxStr), ('d', t.devTypeStr), ('a', t.devIpaddrStr),
    ('p', t.devPortidxStr)] ++
    (if t.hasRedundantIp then [('r', t.devRedundantIpaddrStr)] else [])

/-- The options a command for `t` has, in their order, with their values. -/
def TtyInfo.options (site : Site) (t : TtyInfo) : List (Char × List Char) :=
  t.ownOptions ++ (if t.devSsl then [('S', site.sslconf)] else [])

/-- The value `t` gives to option `-o`. -/
def TtyInfo.given (site : Site) (t : TtyInfo) (o : Char) : Option (List Char) :=
  (t.options site).lookup o

/-- The options that are compared. -/
def compared : List Char := ['l', 'd', 'a', 'p', 'r', 'S']

/-- Two entries that need not be told apart. -/
def Agree (site : Site) (a b : TtyInfo) : Prop := ∀ o ∈ compared, a.given site o = b.given site o

instance (site : Site) (a b : TtyInfo) : Decidable (Agree site a b) :=
  decidable_of_iff ((compared.all fun o => a.given site o == b.given site o) = true)
    (by simp [Agree])

/-- None of the strings needs quoting in a shell. -/
def TtyInfo.Plain (t : TtyInfo) : Prop :=
  ∀ s ∈ [t.mptNameidxStr, t.devTypeStr, t.devIpaddrStr, t.devPortidxStr, t.devRedundantIpaddrStr],
    ∀ c ∈ s, metachar c = false

instance (t : TtyInfo) : Decidable t.Plain :=
  decidable_of_iff
    (([t.mptNameidxStr, t.devTypeStr, t.devIpaddrStr, t.devPortidxStr,
      t.devRedundantIpaddrStr].all fun s => s.all fun c => !metachar c) = true)
    (by simp [TtyInfo.Plain])

/-- The command for `t` fits its buffer. -/
def TtyInfo.Fits (site : Site) (t : TtyInfo) : Prop := (createSyscmd site 1024 t).2 < 1024

/-- **No value is in the way of option `-o`**: where the two characters occur in a value
before the option's own, they are followed by the same value. -/
def Clear (site : Site) (t : TtyInfo) (o : Char) : Prop :=
  ∀ v, ((t.options site).takeWhile (·.1 ≠ o)).findSome? (fun f => after ['-', o] f.2) = some v →
    t.given site o = some v

instance (site : Site) (t : TtyInfo) : Decidable (t.Fits site) :=
  inferInstanceAs (Decidable (_ < _))

end AdvVcom
