/-
# `AdvVcom.Initd.Startup` — `vcomd` reads its command line

The other end of `_create_syscmd`: the shell splits the command into words, and `startup`
of `vcom_client.c` reads them with `getopt` and `sscanf`.  What it makes of them is what
main runs with: the number in the name of the driver's file, the device id and the port
sent in OPEN, the two addresses, the file of the TLS configuration and the log file.

    `-t`   %d     the value of `strtol`, cut to 32 bits, as in `atoi`
    `-p`   %u     the value of `strtoul`, cut to 32 bits
    `-d`   %hx    the value of `strtoul` to base 16, cut to 16 bits

A conversion that finds no digit leaves its variable as it was.  Whether the file given
with `-S` can be used is the business of `loadconfig` and OpenSSL; here it is a parameter.

**Proved here.**

    a positive `atoi` and `%u` mean the same number          (`sscanfU_of_atoi`)
    the `vcomd` of an entry runs with what the entry says, on the file that
    `advttyd` looked at                                      (`startup_round_trip`)
-/
import AdvVcom.Initd.Sync
import AdvVcom.Initd.Lines
import AdvVcom.Lib.Getopt
import Mathlib.Algebra.Group.Nat.Defs
import Mathlib.Algebra.Ring.Int.Defs

namespace AdvVcom.Vcomd

open Lib.CStr Lib.Getopt

/-! ## `sscanf` -/

/-- A sign in front of a number, and the rest. -/
def sign : List Char → Bool × List Char
  | '-' :: t => (true, t)
  | '+' :: t => (false, t)
  | t => (false, t)

/-- What `strtoul` returns for the digits of `n`; a minus is taken modulo `2^64`. -/
def strtoul (neg : Bool) (n : Nat) : Nat :=
  if 2 ^ 64 ≤ n then 2 ^ 64 - 1 else if neg then (2 ^ 64 - n) % 2 ^ 64 else n

def decValue (digits : List Char) : Nat := digits.foldl (fun n c => n * 10 + (c.toNat - 48)) 0

/-- `sscanf(optarg, "%d", &old)`. -/
def sscanfD (optarg : List Char) (old : Int) : Int :=
  let (_, t) := sign (optarg.dropWhile isspace)
  if t.takeWhile Char.isDigit = [] then old else atoi optarg

/-- `sscanf(optarg, "%u", &old)`. -/
def sscanfU (optarg : List Char) (old : UInt32) : UInt32 :=
  let (neg, t) := sign (optarg.dropWhile isspace)
  let digits := t.takeWhile Char.isDigit
  if digits = [] then old else UInt32.ofNat (strtoul neg (decValue digits))

def isxdigit (c : Char) : Bool :=
  c.isDigit || decide ('a' ≤ c ∧ c ≤ 'f') || decide ('A' ≤ c ∧ c ≤ 'F')

def hexDigit (c : Char) : Nat :=
  if c.isDigit then c.toNat - 48
  else if 'a' ≤ c then c.toNat - 87
  else c.toNat - 55

/-- The two characters `0x` that may stand before a number to base 16. -/
def hexMark : List Char → Option (List Char)
  | '0' :: x :: t => if x = 'x' ∨ x = 'X' then some t else none
  | _ => none

/-- `sscanf(optarg, "%hx", &old)`; with `0x` and nothing behind it the 0 is a number. -/
def sscanfHx (optarg : List Char) (old : UInt16) : UInt16 :=
  let (neg, t) := sign (optarg.dropWhile isspace)
  let digits := ((hexMark t).getD t).takeWhile isxdigit
  if digits = [] ∧ (hexMark t).isNone then old
  else UInt16.ofNat (strtoul neg (digits.foldl (fun n c => n * 16 + hexDigit c) 0))

/-! ## `startup` -/

/-- What becomes of the file given with `-S`. -/
inductive Tls where
  | noConfig | noCtx | ready
  deriving DecidableEq, Repr

/-- How `startup` gives up: two ways to return -1, and `exit(0)`. -/
inductive Quit where
  | usage | noConfig | exit
  deriving DecidableEq, Repr

/-- The fields of `struct vc_attr` that `startup` sets, and the argument of `mon_init`.
An address that was not given is `none`. -/
structure Port where
  ttyid : Int
  devid : UInt16
  port : UInt32
  ipPtr : Option (List Char)
  ipRed : Option (List Char)
  ssl : Option (List Char)
  log : Option (List Char)
  deriving DecidableEq, Repr

/-- And its own variables. -/
structure Vars extends Port where
  addr : Option (List Char)
  setDevid : Bool

def optstring : List Char := "S:hl:t:d:a:p:r:".toList

def vars : Vars :=
  { ttyid := -1, devid := 0, port := 0, ipPtr := none, ipRed := none, ssl := none, log := none,
    addr := none, setDevid := false }

/-- One round of the `switch`. -/
def startupOpt (tls : List Char → Tls) (v : Vars) : Got Char → Except Quit Vars
  | .value 'l' optarg => .ok { v with log := some optarg }
  | .value 't' optarg => .ok { v with ttyid := sscanfD optarg v.ttyid }
  | .value 'd' optarg => .ok { v with setDevid := true, devid := sscanfHx optarg v.devid }
  | .value 'a' optarg => .ok { v with addr := some optarg, ipPtr := some optarg }
  | .value 'p' optarg => .ok { v with port := sscanfU optarg v.port }
  | .value 'r' optarg => .ok { v with addr := some optarg, ipRed := some optarg }
  | .value 'S' optarg =>
      match tls optarg with
      | .noConfig => .error .noConfig
      | .noCtx => .error .exit
      | .ready => .ok { v with ssl := some optarg }
  | _ => .error .usage

/-- The test behind the loop. -/
def startupCheck (v : Vars) : Except Quit Port :=
  if v.addr = none ∨ v.port = 0 ∨ v.ttyid < 0 ∨ v.setDevid = false then .error .usage
  else .ok v.toPort

def startup (tls : List Char → Tls) (argv : List (List Char)) : Except Quit Port :=
  if argv.length < 2 then .error .usage
  else ((getopt '-' (takes ':' optstring) (argv.drop 1)).foldlM (startupOpt tls) vars).bind
    startupCheck

/-- `sprintf(filename, "/proc/vcom/advproc%d", port.ttyid)`. -/
def filename (ttyid : Int) : List Char := "/proc/vcom/advproc".toList ++ (Int.repr ttyid).toList

/-! ## What an entry says -/

/-- `vcomif`, the file `advttyd` looks at. -/
def vcomif (t : TtyInfo) : List Char := "/proc/vcom/advproc".toList ++ t.mptNameidxStr

/-- The number that `vcomd` reads for an entry. -/
def ttyidOf (t : TtyInfo) : Int := sscanfD t.mptNameidxStr (-1)

/-- What the `vcomd` of an entry runs with. -/
def portOf (site : Site) (t : TtyInfo) : Port where
  ttyid := ttyidOf t
  devid := sscanfHx t.devTypeStr 0
  port := UInt32.ofInt (atoi t.devPortidxStr)
  ipPtr := some t.devIpaddrStr
  ipRed := if t.hasRedundantIp then some t.devRedundantIpaddrStr else none
  ssl := if t.devSsl then some site.sslconf else none
  log := some t.mon

/-- And where it gives up. -/
def startOf (site : Site) (tls : List Char → Tls) (t : TtyInfo) : Except Quit Port :=
  match if t.devSsl then tls site.sslconf else .ready with
  | .noConfig => .error .noConfig
  | .noCtx => .error .exit
  | .ready => if ttyidOf t < 0 then .error .usage else .ok (portOf site t)

/-! ## The numbers -/

theorem decValue_cast (digits : List Char) :
    digits.foldl (fun (n : Int) c => n * 10 + (c.toNat - 48 : Nat)) 0 = decValue digits := by
  have hcast : ∀ (n : Nat) (c : Char), (n : Int) * 10 + (c.toNat - 48 : Nat) =
      ((n * 10 + (c.toNat - 48) : Nat) : Int) := fun n c => rfl
  exact List.foldl_hom (fun n : Nat => (n : Int)) hcast

/-- The number `strtol` makes of a sign and a value. -/
def strtol (neg : Bool) (n : Nat) : Int :=
  if neg then max (-n) (-2 ^ 63) else min n (2 ^ 63 - 1)

theorem atoi_of_sign {s t : List Char} {neg : Bool} (h : sign (s.dropWhile isspace) = (neg, t)) :
    atoi s = int32 (strtol neg (decValue (t.takeWhile Char.isDigit))) := by
  have hread : atoi s =
      let p := sign (s.dropWhile isspace)
      let n : Int := (p.2.takeWhile Char.isDigit).foldl
        (fun (n : Int) c => n * 10 + (c.toNat - 48 : Nat)) 0
      int32 (if p.1 then max (-n) (-2 ^ 63) else min n (2 ^ 63 - 1)) := rfl
  rw [hread, h]
  simp only [decValue_cast, strtol]

/-- Where `strtol` does not stop at an end of its range, the two agree modulo `2^32`. -/
theorem strtoul_of_strtol {neg : Bool} {n : Nat} (h : 0 < int32 (strtol neg n)) :
    UInt32.ofNat (strtoul neg n) = UInt32.ofInt (int32 (strtol neg n)) := by
  have hmod : int32 (strtol neg n) % 2 ^ 32 = strtol neg n % 2 ^ 32 := Int.bmod_emod
  have hsmall : n < 2 ^ 63 := by
    by_contra hbig
    cases neg with
    | true =>
        have hend : strtol true n = -2 ^ 63 := by
          simp only [strtol, if_true]
          omega
        rw [hend] at h
        exact absurd h (by decide)
    | false =>
        have hend : strtol false n = 2 ^ 63 - 1 := by
          simp only [strtol, Bool.false_eq_true, if_false]
          omega
        rw [hend] at h
        exact absurd h (by decide)
  rw [UInt32.ofInt, hmod]
  apply UInt32.toNat.inj
  rw [UInt32.toNat_ofNat', UInt32.toNat_ofNat']
  cases neg with
  | true =>
      have hlow : strtol true n = -n := by
        simp only [strtol, if_true]
        omega
      have hval : strtoul true n = (2 ^ 64 - n) % 2 ^ 64 := by
        rw [strtoul, if_neg (by omega), if_pos rfl]
      rw [hlow, hval]
      omega
  | false =>
      have hlow : strtol false n = n := by
        simp only [strtol, Bool.false_eq_true, if_false]
        omega
      have hval : strtoul false n = n := by
        rw [strtoul, if_neg (by omega), if_neg Bool.false_ne_true]
      rw [hlow, hval]
      omega

/-- **`%u` on a number that `atoi` finds positive.** -/
theorem sscanfU_of_atoi {s : List Char} (h : 0 < atoi s) (old : UInt32) :
    sscanfU s old = UInt32.ofInt (atoi s) := by
  rcases hsign : sign (s.dropWhile isspace) with ⟨neg, t⟩
  have hatoi := atoi_of_sign hsign
  rw [hatoi] at h
  have hdigits : t.takeWhile Char.isDigit ≠ [] := by
    intro hnil
    rw [hnil] at h
    cases neg with
    | true => exact absurd h (by decide)
    | false => exact absurd h (by decide)
  rw [sscanfU, hsign, hatoi]
  simp only [if_neg hdigits]
  exact strtoul_of_strtol h

/-- The number in the name of one of the driver's files. -/
theorem sscanfD_minor {n : Nat} (hn : n < 2 ^ 31) (old : Int) :
    sscanfD (Nat.repr n).toList old = n := by
  rcases hsign : sign ((Nat.repr n).toList.dropWhile isspace) with ⟨neg, t⟩
  have hatoi := atoi_repr hn
  rw [sscanfD, hsign, hatoi]
  simp only
  split
  · rename_i hnone
    -- without a digit `atoi` is 0, and 0 has a digit
    have hzero : (n : Int) = 0 := by
      rw [← hatoi, atoi_of_sign hsign, hnone]
      cases neg with
      | true => rfl
      | false => rfl
    obtain rfl : n = 0 := by omega
    cases hsign
    exact absurd hnone (by decide)
  · rfl

/-! ## The entry -/

theorem port_pos {file : List Char} {t : TtyInfo} (h : t ∈ paserConfig file) :
    0 < atoi t.devPortidxStr := by
  rw [paserConfig, paserLoop_lines (Nat.le_refl _)] at h
  obtain ⟨l, -, hl⟩ := List.mem_flatMap.mp (List.mem_of_mem_take h)
  obtain ⟨piece, -, hpiece⟩ := List.mem_filterMap.mp hl
  exact parseLine_port hpiece

/-- The words of a command that fits. -/
theorem shellWords_fits {site : Site} {t : TtyInfo} (h : t.Parsed) (hplain : t.Plain)
    (hfits : t.Fits site) :
    shellWords (systemArg site t) = CF_PORTPROG :: (t.options site).map optArg := by
  have hproper : ∀ f ∈ t.options site, Proper f := proper_options h hplain
  rw [TtyInfo.Fits, createSyscmd_eq] at hfits
  rw [systemArg, createSyscmd_eq]
  simp only [snprintf] at hfits ⊢
  rw [List.take_of_length_le (Nat.le_of_lt_succ hfits)]
  cases hssl : t.devSsl with
  | true =>
      exact shellWords_text hproper (show ∀ v ∈ ([] : List (List Char)), v = [] by simp)
        (takeWhile_amp _)
  | false => exact shellWords_text hproper (show ∀ v ∈ [[]], v = [] by simp) (takeWhile_amp _)

/-- Every letter that `_create_syscmd` uses is an option with a value. -/
theorem takes_letter {c : Char} (h : c ∈ ['l', 't', 'd', 'a', 'p', 'r', 'S']) :
    takes ':' optstring c = some true := by
  have hall : ∀ c ∈ ['l', 't', 'd', 'a', 'p', 'r', 'S'], takes ':' optstring c = some true :=
    forall_mem_of_all (by decide)
  exact hall c h

theorem getopt_options {site : Site} {t : TtyInfo} (h : t.Parsed) (hplain : t.Plain) :
    getopt '-' (takes ':' optstring) ((t.options site).map optArg) =
      (t.options site).map fun f => .value f.1 f.2 := by
  refine getopt_row fun f hf => ?_
  have hproper := proper_options h hplain f hf
  exact ⟨takes_letter hproper.letter, hproper.value.ne_nil⟩

/-- The variables when the options of an entry are read, up to `-S`. -/
def optVars (t : TtyInfo) (ssl : Option (List Char)) : Vars where
  ttyid := ttyidOf t
  devid := sscanfHx t.devTypeStr 0
  port := sscanfU t.devPortidxStr 0
  ipPtr := some t.devIpaddrStr
  ipRed := if t.hasRedundantIp then some t.devRedundantIpaddrStr else none
  ssl := ssl
  log := some t.mon
  addr := some (if t.hasRedundantIp then t.devRedundantIpaddrStr else t.devIpaddrStr)
  setDevid := true

theorem fold_ownOptions (tls : List Char → Tls) (t : TtyInfo) :
    (t.ownOptions.map fun f => .value f.1 f.2).foldlM (startupOpt tls) vars =
      .ok (optVars t none) := by
  cases hred : t.hasRedundantIp with
  | true =>
      simp only [TtyInfo.ownOptions, optVars, hred, if_true]
      rfl
  | false =>
      simp only [TtyInfo.ownOptions, optVars, hred, Bool.false_eq_true, if_false]
      rfl

theorem ofInt_ne_zero {x : Int} (hpos : 0 < x) (hlt : x < 2 ^ 32) : UInt32.ofInt x ≠ 0 := by
  intro hzero
  have hnat := congrArg UInt32.toNat hzero
  rw [UInt32.ofInt, UInt32.toNat_ofNat'] at hnat
  have hrhs : (0 : UInt32).toNat = 0 := rfl
  omega

/-- With the port of an entry, only its number can be missing. -/
theorem startupCheck_optVars {t : TtyInfo} (hport : 0 < atoi t.devPortidxStr)
    (ssl : Option (List Char)) :
    startupCheck (optVars t ssl) =
      if ttyidOf t < 0 then .error .usage else .ok (optVars t ssl).toPort := by
  have hne : sscanfU t.devPortidxStr 0 ≠ 0 := by
    have hrange : atoi t.devPortidxStr < 2147483648 := (int32_range _).2
    rw [sscanfU_of_atoi hport]
    exact ofInt_ne_zero hport (by omega)
  unfold startupCheck
  refine if_congr ?_ rfl rfl
  simp [optVars, hne]

theorem startup_eq (tls : List Char → Tls) {site : Site} {t : TtyInfo} (h : t.Parsed)
    (hplain : t.Plain) (hfits : t.Fits site) (hport : 0 < atoi t.devPortidxStr) :
    startup tls (shellWords (systemArg site t)) = startOf site tls t := by
  have hlen : ¬ (CF_PORTPROG :: (t.options site).map optArg).length < 2 := by
    simp [TtyInfo.options, TtyInfo.ownOptions]
  rw [startup, shellWords_fits h hplain hfits, if_neg hlen, List.drop_succ_cons, List.drop_zero,
    getopt_options h hplain, TtyInfo.options, List.map_append, List.foldlM_append, fold_ownOptions]
  have hvalue := sscanfU_of_atoi hport 0
  cases hssl : t.devSsl with
  | false =>
      simp only [startOf, portOf, hssl, Bool.false_eq_true, if_false, ← hvalue]
      exact startupCheck_optVars hport none
  | true =>
      simp only [startOf, portOf, hssl, if_true, ← hvalue]
      cases htls : tls site.sslconf with
      | noConfig => simp [startupOpt, htls, bind, Except.bind]
      | noCtx => simp [startupOpt, htls, bind, Except.bind]
      | ready =>
          have hstep : startupOpt tls (optVars t none) (.value 'S' site.sslconf) =
              .ok (optVars t (some site.sslconf)) := by
            simp only [startupOpt, htls]
            rfl
          simp only [List.map_cons, List.map_nil, List.foldlM_cons, List.foldlM_nil, bind, pure,
            Except.bind, Except.pure, hstep]
          exact startupCheck_optVars hport (some site.sslconf)

/-- A number of the driver leads back to the file. -/
theorem filename_minor {t : TtyInfo} (h : IsMinor t.mptNameidxStr) :
    0 ≤ ttyidOf t ∧ filename (ttyidOf t) = vcomif t := by
  obtain ⟨i, hi, hname⟩ := h
  have hports : VCOM_PORTS = 256 := rfl
  have hsmall : i < 2 ^ 31 := by omega
  have hread : ttyidOf t = i := by
    rw [ttyidOf, hname]
    exact sscanfD_minor hsmall _
  rw [hread]
  exact ⟨Int.natCast_nonneg i, congrArg ("/proc/vcom/advproc".toList ++ ·) hname.symm⟩

/-- **From the configuration to the daemon.**  The `vcomd` that is started for an entry runs
with what the entry says, or gives up where the entry asks for TLS and it cannot be had, or
has no number for a name; and if it is one of the driver's numbers, the file it opens is the
one `advttyd` looked at. -/
theorem startup_round_trip (site : Site) (tls : List Char → Tls) {file : List Char} {b : TtyInfo}
    (hb : b ∈ paserConfig file) (hplain : b.Plain) (hfits : b.Fits site) :
    startup tls (shellWords (systemArg site b)) = startOf site tls b ∧
      (IsMinor b.mptNameidxStr → 0 ≤ ttyidOf b ∧ filename (ttyidOf b) = vcomif b) :=
  ⟨startup_eq tls (paserConfig_parsed hb) hplain hfits (port_pos hb), filename_minor⟩

/-- An entry with everything in it. -/
def sample : TtyInfo :=
  { mptNameidxStr := "7".toList, devTypeStr := "1322".toList, devIpaddrStr := "10.0.0.1".toList,
    devPortidxStr := "2".toList, devRedundantIpaddrStr := "eki-1322".toList,
    hasRedundantIp := true, devSsl := true }

theorem startup_round_trip_sample :
    startup (fun _ => .ready) (shellWords (systemArg advtty sample)) =
        .ok { ttyid := 7, devid := 0x1322, port := 2, ipPtr := some "10.0.0.1".toList,
              ipRed := some "eki-1322".toList, ssl := some "/usr/local/advtty/ssl.json".toList,
              log := some "/tmp/advmon/advtty7".toList } ∧
      filename (ttyidOf sample) = "/proc/vcom/advproc7".toList := by
  have hmem : sample ∈ paserConfig "7 ssl:1322 10.0.0.1 2 eki-1322\n".toList := by decide +kernel
  obtain ⟨hstart, hfile⟩ := startup_round_trip advtty (fun _ => .ready) hmem (by decide +kernel)
    (by decide +kernel)
  refine ⟨hstart.trans (by decide +kernel), (hfile ⟨7, by decide, rfl⟩).2⟩

end AdvVcom.Vcomd
