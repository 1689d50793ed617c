/-
# `AdvVcom.Daemon.Monitor` — the log a daemon keeps in its monitor file

The monitor file is mapped: a status line, in a slot as wide as the widest line so far,
and behind it the messages, the newest first.  `mon_update` puts together the line and the
message in a buffer on its stack and copies them over, after it has moved away what stands
in their place.

What goes wrong: the lengths are those that `snprintf` would have liked to print, so that a
message longer than the buffer is read from behind it; and the messages are moved up as if
the slot were as wide as this line, so that after a shorter line the last bytes move out of
the mapping.

**Proved here.**

    a call that stays inside does to the file what it should do to the log  (`monUpdate_ok`)
    every other call leaves the buffer or the mapping                      (`monUpdate_none`)
    a run stays inside exactly if its calls are orderly                    (`within_iff`)
    what the callers form has at most 511 and 255 bytes                    (`length_formed`)
-/
import AdvVcom.Lib.Block
import AdvVcom.Lib.CStr
import AdvVcom.Lib.Snprintf

namespace AdvVcom

open Lib Lib.CStr Lib.Snprintf

/-! ## The monitor -/

/-- The size of the mapping. -/
def MSIZE : Nat := 2048

/-- The size of the buffer `tmp`. -/
def MON_MSGLEN_MAX : Nat := 128

/-- The time as `strftime` prints it, or nothing. -/
structure Stamp where
  text : List UInt8
  fits : text.length < MON_MSGLEN_MAX

/-- A call of `mon_update`: the name of the current state, if the stack has one, the debug
string, if there is one, and the time. -/
structure MonCall where
  stat : Option (List UInt8)
  dbg : Option (List UInt8)
  now : Stamp

/-- `struct vc_monitor` with what is mapped at `addr`. -/
structure Monitor where
  fd : Int
  pid : Nat
  mem : Block UInt8 MSIZE
  maxStatl : Nat
  dbgFirst : Bool

/-- What `mon_init` leaves when the file can be mapped. -/
def monInit (fd : Int) (pid : Nat) : Monitor := ⟨fd, pid, .fill MSIZE (ascii '\r'), 0, true⟩

def statusLine (pid : Nat) (name : List UInt8) : List UInt8 :=
  asciis "Pid " ++ asciis (Nat.repr pid) ++ asciis "|State[" ++ name ++ asciis "]\n"

def debugLine (dbg : List UInt8) : List UInt8 := asciis "> " ++ dbg ++ asciis "\n"

/-- The slot is made wider for a line of `statl` bytes. -/
def Monitor.widen (m : Monitor) (statl : Nat) : Option Monitor :=
  if m.maxStatl < statl then
    (m.mem.move statl m.maxStatl (MSIZE - statl)).map fun mem => { m with mem, maxStatl := statl }
  else some m

/-- The line comes into the slot. -/
def showStatus (m : Monitor) (tmp : Block UInt8 MON_MSGLEN_MAX) (statl : Nat) : Option Monitor := do
  let m ← m.widen statl
  let line ← tmp.read 0 m.maxStatl
  let mem ← m.mem.write 0 line
  some { m with mem }

/-- The messages, if there are any, are moved up for one of `msglen` bytes. -/
def Monitor.moveUp (m : Monitor) (statl msglen : Nat) : Option (Block UInt8 MSIZE) :=
  if m.dbgFirst then some m.mem
  else m.mem.move (m.maxStatl + msglen) m.maxStatl (MSIZE - statl - msglen)

/-- The message comes in front of the others. -/
def showMessage (m : Monitor) (statl : Nat) (now : Stamp) (dbg : List UInt8) :
    Option (Int × Monitor) := do
  let msglen := now.text.length + (debugLine dbg).length
  guard ((msglen : Int) ≤ INT_MAX)
  let tmp ← (Block.fill MON_MSGLEN_MAX (ascii ' ')).print 0 0 now.text
  let tmp ← tmp.print 0 now.text.length (debugLine dbg)
  if MSIZE ≤ msglen + m.maxStatl + 1 then some (-1, m)
  else do
    let mem ← m.moveUp statl msglen
    let text ← tmp.read 0 msglen
    let mem ← mem.write m.maxStatl text
    some (0, { m with mem, dbgFirst := false })

/-- The part of a call behind the status line. -/
def Monitor.debug (m : Monitor) (statl : Nat) (c : MonCall) : Option (Int × Monitor) :=
  match c.dbg with
  | none => some (0, m)
  | some dbg => showMessage m statl c.now dbg

/-- `mon_update`.  There is no result if a copy leaves `tmp` or the mapping, or if a length
is no `int`. -/
def monUpdate (m : Monitor) (c : MonCall) : Option (Int × Monitor) :=
  if m.fd < 0 then some (0, m)
  else
    match c.stat with
    | none => some (-1, m)
    | some name => do
        let statl := (statusLine m.pid name).length
        guard ((statl : Int) ≤ INT_MAX)
        let tmp ← (Block.fill MON_MSGLEN_MAX (ascii ' ')).print 0 0 (statusLine m.pid name)
        if MSIZE ≤ statl + 1 then some (-1, m)
        else do
          let m ← showStatus m tmp statl
          m.debug statl c

/-- The calls one after the other. -/
def monRun : Monitor → List MonCall → Option Monitor
  | m, [] => some m
  | m, c :: cs => do
      let r ← monUpdate m c
      monRun r.2 cs

/-! ## The log -/

/-- A text in a buffer full of blanks. -/
def inTmp (text : List UInt8) : List UInt8 :=
  text.take (MON_MSGLEN_MAX - 1) ++ 0 :: List.replicate MON_MSGLEN_MAX (ascii ' ')

/-- The slot with the line, and the messages. -/
structure Log where
  slot : List UInt8
  msgs : List (List UInt8)

/-- What the file shows of it. -/
def Log.text (l : Log) : List UInt8 :=
  l.slot ++ l.msgs.flatten ++ List.replicate MSIZE (ascii '\r')

def Log.status (l : Log) (line : List UInt8) : Log :=
  { l with slot := (inTmp line).take (max l.slot.length line.length) }

def Log.add (l : Log) (msg : List UInt8) : Log :=
  { l with msgs := (inTmp msg).take msg.length :: l.msgs }

def message (now : Stamp) (dbg : List UInt8) : List UInt8 := now.text ++ debugLine dbg

def Log.debug (l : Log) (c : MonCall) : Log :=
  match c.dbg with
  | none => l
  | some dbg =>
      if MSIZE ≤ (message c.now dbg).length + l.slot.length + 1 then l
      else l.add (message c.now dbg)

/-- What a call should do. -/
def Log.update (pid : Nat) (l : Log) (c : MonCall) : Log :=
  match c.stat with
  | none => l
  | some name =>
      if MSIZE ≤ (statusLine pid name).length + 1 then l
      else (l.status (statusLine pid name)).debug c

def Log.empty : Log := ⟨[], []⟩

/-- The log after the calls. -/
def Log.run (pid : Nat) (cs : List MonCall) : Log := cs.foldl (Log.update pid) .empty

/-! ## Calls that stay inside -/

/-- A message that the buffer has room for, and is moved in as far as the slot is wide. -/
def Log.AllowsMessage (l : Log) (line msg : List UInt8) : Prop :=
  (msg.length : Int) ≤ INT_MAX ∧
    (MSIZE ≤ msg.length + max l.slot.length line.length + 1 ∨
      msg.length ≤ MON_MSGLEN_MAX ∧ (l.msgs = [] ∨ l.slot.length ≤ line.length))

/-- A line that is refused, or one that the buffer has room for and such a message. -/
def Log.AllowsLine (l : Log) (line : List UInt8) (msg : Option (List UInt8)) : Prop :=
  (line.length : Int) ≤ INT_MAX ∧
    (MSIZE ≤ line.length + 1 ∨
      line.length ≤ MON_MSGLEN_MAX ∧ ∀ text ∈ msg, l.AllowsMessage line text)

def Log.Allows (pid : Nat) (l : Log) (c : MonCall) : Prop :=
  ∀ name ∈ c.stat, l.AllowsLine (statusLine pid name) (c.dbg.map (message c.now))

/-- Each call is one that the log at that time allows. -/
def Orderly (pid : Nat) : Log → List MonCall → Prop
  | _, [] => True
  | l, c :: cs => l.Allows pid c ∧ Orderly pid (l.update pid c) cs

/-- The mapping is what the file should show of the log. -/
structure Monitor.Holds (m : Monitor) (pid : Nat) (l : Log) : Prop where
  opened : 0 ≤ m.fd
  pid : m.pid = pid
  shows : m.mem.Shows l.text
  width : m.maxStatl = l.slot.length
  narrow : l.slot.length ≤ MON_MSGLEN_MAX
  first : m.dbgFirst = l.msgs.isEmpty

section
variable {m : Monitor} {pid : Nat} {l : Log}

theorem holds_init {fd : Int} (hfd : 0 ≤ fd) : (monInit fd pid).Holds pid .empty :=
  ⟨hfd, rfl, Block.shows_fill _, rfl, Nat.zero_le _, rfl⟩

/-- What `snprintf` leaves in a buffer full of blanks. -/
theorem print_blank (text : List UInt8) :
    ∃ tmp, (Block.fill MON_MSGLEN_MAX (ascii ' ')).print 0 0 text = some tmp ∧
      tmp.Shows (inTmp text) := by
  have hblank : (Block.fill MON_MSGLEN_MAX (ascii ' ')).Shows
      ([] ++ ([] ++ List.replicate MON_MSGLEN_MAX (ascii ' '))) := Block.shows_fill _
  exact hblank.print_over (by decide) (Nat.zero_le _) (Nat.le_refl _) 0 text

/-- And what `strftime` and `snprintf` leave there. -/
theorem print_message (now : Stamp) (dbg : List UInt8) :
    ∃ tmp tmp', (Block.fill MON_MSGLEN_MAX (ascii ' ')).print 0 0 now.text = some tmp ∧
      tmp.print 0 now.text.length (debugLine dbg) = some tmp' ∧
      tmp'.Shows (inTmp (message now dbg)) := by
  have hfits := now.fits
  have hroom : now.text.length ≤ MON_MSGLEN_MAX - 1 := Nat.le_sub_one_of_lt hfits
  obtain ⟨tmp, htmp, hstamp⟩ := print_blank now.text
  rw [inTmp, List.take_of_length_le hroom] at hstamp
  obtain ⟨tmp', htmp', hshows⟩ := Block.Shows.print_over (q := [0]) hstamp hfits (Nat.le_refl _)
    (Nat.le_refl _) 0 (debugLine dbg)
  refine ⟨tmp, tmp', htmp, htmp', ?_⟩
  rw [inTmp, message, List.take_append, List.take_of_length_le hroom, Nat.sub_right_comm]
  exact hshows

theorem length_take_inTmp {text : List UInt8} {w : Nat} (hw : w ≤ MON_MSGLEN_MAX) :
    ((inTmp text).take w).length = w := by
  rw [List.length_take, inTmp, List.length_append, List.length_cons, List.length_replicate]
  omega

theorem read_inTmp {tmp : Block UInt8 MON_MSGLEN_MAX} {text : List UInt8} {w : Nat}
    (htmp : tmp.Shows (inTmp text)) (hw : w ≤ MON_MSGLEN_MAX) :
    tmp.read 0 w = some ((inTmp text).take w) := by
  have hlen : ((inTmp text).take w).length = w := length_take_inTmp hw
  rw [← List.take_append_drop w (inTmp text)] at htmp
  have hread := htmp.read (Nat.le_trans (Nat.le_of_eq hlen) hw)
  rwa [hlen] at hread

/-- What stands in the file behind the slot. -/
def Log.behind (l : Log) : List UInt8 := l.msgs.flatten ++ List.replicate MSIZE (ascii '\r')

theorem Log.text_eq (l : Log) : l.text = l.slot ++ l.behind := List.append_assoc _ _ _

theorem Log.behind_add (l : Log) (msg : List UInt8) :
    (l.add msg).behind = (inTmp msg).take msg.length ++ l.behind := by
  rw [Log.behind, Log.add, List.flatten_cons, List.append_assoc]
  rfl

/-- The slot is as wide as it has to be; what stands in it does not matter. -/
theorem widen_ok (h : m.Holds pid l) {statl : Nat} (hstatl : statl ≤ MON_MSGLEN_MAX) :
    ∃ mem slot, m.widen statl = some { m with mem, maxStatl := max l.slot.length statl } ∧
      slot.length = max l.slot.length statl ∧ mem.Shows (slot ++ l.behind) := by
  have hshows := h.shows
  have hwidth := h.width
  have hsize : statl ≤ MSIZE := Nat.le_trans hstatl (by decide)
  rw [l.text_eq] at hshows
  unfold Monitor.widen
  by_cases hwider : m.maxStatl < statl
  · rw [if_pos hwider]
    obtain ⟨mem, gap, hmove, hgap, hmoved⟩ := hshows.move (k := statl - l.slot.length) (by omega)
    have hdst : l.slot.length + (statl - l.slot.length) = statl := by omega
    rw [Nat.sub_sub, hdst, ← hwidth] at hmove
    refine ⟨mem, l.slot ++ gap, ?_, ?_, hmoved⟩
    · rw [hmove, Nat.max_eq_right (by omega)]
      rfl
    · rw [List.length_append]
      omega
  · rw [if_neg hwider, Nat.max_eq_left (by omega), ← hwidth]
    exact ⟨m.mem, l.slot, rfl, h.width.symm, hshows⟩

theorem showStatus_ok (h : m.Holds pid l) {line : List UInt8} {tmp : Block UInt8 MON_MSGLEN_MAX}
    (htmp : tmp.Shows (inTmp line)) (hline : line.length ≤ MON_MSGLEN_MAX) :
    ∃ m', showStatus m tmp line.length = some m' ∧ m'.Holds pid (l.status line) := by
  have hwide : max l.slot.length line.length ≤ MON_MSGLEN_MAX := Nat.max_le.mpr ⟨h.narrow, hline⟩
  have hroom : 0 + max l.slot.length line.length ≤ MSIZE := by
    rw [Nat.zero_add]
    exact Nat.le_trans hwide (by decide)
  have hslot : ((inTmp line).take (max l.slot.length line.length)).length = _ :=
    length_take_inTmp hwide
  obtain ⟨mem, slot, hwiden, hlen, hshows⟩ := widen_ok h hline
  obtain ⟨mem', hwrite, hshows'⟩ :=
    Block.Shows.write (p := []) hshows (hslot.trans hlen.symm) (hlen ▸ hroom)
  refine ⟨{ m with mem := mem', maxStatl := max l.slot.length line.length }, ?_, ?_⟩
  · rw [showStatus, hwiden]
    simp only [Option.bind_eq_bind, Option.bind_some, read_inTmp htmp hwide]
    rw [show mem.write 0 _ = some mem' from hwrite]
    rfl
  · refine ⟨h.opened, h.pid, ?_, hslot.symm, hslot ▸ hwide, h.first⟩
    rwa [Log.text_eq]

theorem showStatus_none {line : List UInt8} (h : m.Holds pid l) (tmp : Block UInt8 MON_MSGLEN_MAX)
    (hline : MON_MSGLEN_MAX < line.length) : showStatus m tmp line.length = none := by
  have hwider : m.maxStatl < line.length := by
    rw [h.width]
    exact Nat.lt_of_le_of_lt h.narrow hline
  rw [showStatus, Monitor.widen, if_pos hwider]
  cases m.mem.move line.length m.maxStatl (MSIZE - line.length) with
  | none => rfl
  | some mem =>
      have hread : tmp.read 0 line.length = none := Block.read_eq_none (by rwa [Nat.zero_add])
      simp only [Option.map_some, Option.bind_eq_bind, Option.bind_some, hread, Option.bind_none]

/-- Behind the slot there is a gap for the message. -/
theorem moveUp_ok (h : m.Holds pid l) {statl k : Nat} (hk : k ≤ MON_MSGLEN_MAX)
    (hstatl : l.msgs = [] ∨ statl = l.slot.length) :
    ∃ mem gap, m.moveUp statl k = some mem ∧ gap.length = k ∧
      mem.Shows (l.slot ++ gap ++ l.behind) := by
  have hshows := h.shows
  have hroom : l.slot.length + k ≤ MSIZE :=
    Nat.le_trans (Nat.add_le_add h.narrow hk) (by decide)
  unfold Monitor.moveUp
  by_cases hmsgs : l.msgs = []
  · -- there are no messages yet, and the gap is a part of the empty space
    have hempty : l.behind = List.replicate MSIZE (ascii '\r') := by
      rw [Log.behind, hmsgs]
      rfl
    have hfirst : m.dbgFirst = true := by
      rw [h.first, hmsgs]
      rfl
    rw [l.text_eq, hempty] at hshows
    refine ⟨m.mem, List.replicate k (ascii '\r'), if_pos hfirst, List.length_replicate, ?_⟩
    rw [hempty, List.append_assoc, List.replicate_append_replicate]
    exact hshows.replicate (by omega)
  · have hfirst : ¬ m.dbgFirst = true := by
      rw [h.first, List.isEmpty_iff]
      exact hmsgs
    rw [l.text_eq] at hshows
    obtain ⟨mem, gap, hmove, hgap, hmoved⟩ := hshows.move hroom
    rw [if_neg hfirst, hstatl.resolve_left hmsgs, h.width]
    exact ⟨mem, gap, hmove, hgap, hmoved⟩

/-- The steps of `showMessage` with what is then in `tmp`. -/
theorem showMessage_eq (m : Monitor) (statl : Nat) (now : Stamp) (dbg : List UInt8) :
    ∃ tmp : Block UInt8 MON_MSGLEN_MAX, tmp.Shows (inTmp (message now dbg)) ∧
      showMessage m statl now dbg =
        if ((message now dbg).length : Int) ≤ INT_MAX then
          if MSIZE ≤ (message now dbg).length + m.maxStatl + 1 then some (-1, m)
          else (m.moveUp statl (message now dbg).length).bind fun mem =>
            (tmp.read 0 (message now dbg).length).bind fun text =>
              (mem.write m.maxStatl text).map fun mem => (0, { m with mem, dbgFirst := false })
        else none := by
  obtain ⟨tmp, tmp', htmp, htmp', hshows⟩ := print_message now dbg
  refine ⟨tmp', hshows, ?_⟩
  have hlen : (message now dbg).length = now.text.length + (debugLine dbg).length :=
    List.length_append
  rw [showMessage, hlen, htmp]
  by_cases hint : ((now.text.length + (debugLine dbg).length : Nat) : Int) ≤ INT_MAX
  · simp only [guard, hint, if_true, Option.bind_eq_bind, Option.pure_def, Option.bind_some, htmp',
      Option.map_eq_bind]
    rfl
  · simp only [guard, hint, if_false]
    rfl

/-- The file has room for two texts of the size of `tmp`. -/
theorem not_msize_le {i j : Nat} (hi : i ≤ MON_MSGLEN_MAX) (hj : j ≤ MON_MSGLEN_MAX) :
    ¬ MSIZE ≤ i + j + 1 := by
  have hsizes : MSIZE = 2048 ∧ MON_MSGLEN_MAX = 128 := ⟨rfl, rfl⟩
  omega

theorem showMessage_ok (h : m.Holds pid l) {statl : Nat} {now : Stamp} {dbg : List UInt8}
    (hmsg : (message now dbg).length ≤ MON_MSGLEN_MAX)
    (hstatl : l.msgs = [] ∨ statl = l.slot.length) :
    ∃ m', showMessage m statl now dbg = some (0, m') ∧
      m'.Holds pid (l.add (message now dbg)) := by
  obtain ⟨tmp, htmp, heq⟩ := showMessage_eq m statl now dbg
  obtain ⟨mem, gap, hmove, hgap, hshows⟩ := moveUp_ok h hmsg hstatl
  have hnew : ((inTmp (message now dbg)).take (message now dbg).length).length = _ :=
    length_take_inTmp hmsg
  have hnarrow := h.narrow
  obtain ⟨mem', hwrite, hshows'⟩ := hshows.write (hnew.trans hgap.symm)
    (by rw [hgap]; exact Nat.le_trans (Nat.add_le_add hnarrow hmsg) (by decide))
  have hint : ((message now dbg).length : Int) ≤ INT_MAX :=
    Int.le_trans (Int.ofNat_le.mpr hmsg) (by decide)
  have hroom : ¬ MSIZE ≤ (message now dbg).length + m.maxStatl + 1 :=
    h.width ▸ not_msize_le hmsg hnarrow
  refine ⟨{ m with mem := mem', dbgFirst := false }, ?_, h.opened, h.pid, ?_, h.width, hnarrow, rfl⟩
  · rw [heq, if_pos hint, if_neg hroom, hmove, Option.bind_some, read_inTmp htmp hmsg,
      Option.bind_some, h.width, hwrite]
    rfl
  · rw [Log.text_eq, Log.behind_add, ← List.append_assoc]
    exact hshows'

/-- Otherwise the message is read from behind the buffer, or the others are moved out. -/
theorem showMessage_none (h : m.Holds pid l) {statl : Nat} {now : Stamp} {dbg : List UInt8}
    (hroom : (message now dbg).length + l.slot.length + 1 < MSIZE)
    (hout : MON_MSGLEN_MAX < (message now dbg).length ∨
      l.msgs ≠ [] ∧ statl < l.slot.length) : showMessage m statl now dbg = none := by
  obtain ⟨tmp, htmp, heq⟩ := showMessage_eq m statl now dbg
  rw [heq]
  split
  swap
  · rfl
  rw [h.width, if_neg (Nat.not_le.mpr hroom)]
  rcases hout with hlong | ⟨hmsgs, hshort⟩
  · have hread : tmp.read 0 (message now dbg).length = none :=
      Block.read_eq_none (by rwa [Nat.zero_add])
    rw [hread]
    cases m.moveUp statl (message now dbg).length with
    | none => rfl
    | some mem => rfl
  · have hfirst : ¬ m.dbgFirst = true := by
      rw [h.first, List.isEmpty_iff]
      exact hmsgs
    have hmove : m.moveUp statl (message now dbg).length = none := by
      rw [Monitor.moveUp, if_neg hfirst, h.width]
      exact Block.move_eq_none (by omega)
    rw [hmove]
    rfl

theorem showMessage_refused (h : m.Holds pid l) {statl : Nat} {now : Stamp} {dbg : List UInt8}
    (hint : ((message now dbg).length : Int) ≤ INT_MAX)
    (hroom : MSIZE ≤ (message now dbg).length + l.slot.length + 1) :
    showMessage m statl now dbg = some (-1, m) := by
  obtain ⟨tmp, -, heq⟩ := showMessage_eq m statl now dbg
  rw [heq, if_pos hint, h.width, if_pos hroom]

theorem showMessage_long {statl : Nat} {now : Stamp} {dbg : List UInt8}
    (hint : ¬ ((message now dbg).length : Int) ≤ INT_MAX) : showMessage m statl now dbg = none := by
  obtain ⟨tmp, -, heq⟩ := showMessage_eq m statl now dbg
  rw [heq, if_neg hint]

theorem Log.length_status {line : List UInt8} (hslot : l.slot.length ≤ MON_MSGLEN_MAX)
    (hline : line.length ≤ MON_MSGLEN_MAX) :
    (l.status line).slot.length = max l.slot.length line.length :=
  length_take_inTmp (Nat.max_le.mpr ⟨hslot, hline⟩)

/-- The steps of `mon_update` with what is then in `tmp`. -/
theorem monUpdate_eq {c : MonCall} {name : List UInt8} (hfd : 0 ≤ m.fd) (hstat : c.stat = some name) :
    ∃ tmp : Block UInt8 MON_MSGLEN_MAX, tmp.Shows (inTmp (statusLine m.pid name)) ∧
      monUpdate m c =
        if ((statusLine m.pid name).length : Int) ≤ INT_MAX then
          if MSIZE ≤ (statusLine m.pid name).length + 1 then some (-1, m)
          else (showStatus m tmp (statusLine m.pid name).length).bind fun m' =>
            m'.debug (statusLine m.pid name).length c
        else none := by
  obtain ⟨tmp, htmp, hshows⟩ := print_blank (statusLine m.pid name)
  refine ⟨tmp, hshows, ?_⟩
  rw [monUpdate, if_neg (Int.not_lt.mpr hfd), hstat]
  by_cases hint : ((statusLine m.pid name).length : Int) ≤ INT_MAX
  · simp only [guard, hint, if_true, Option.bind_eq_bind, Option.pure_def, Option.bind_some, htmp]
  · simp only [guard, hint, if_false]
    rfl

theorem debug_ok {c : MonCall} {line : List UInt8} (h : m.Holds pid (l.status line))
    (hslot : l.slot.length ≤ MON_MSGLEN_MAX) (hline : line.length ≤ MON_MSGLEN_MAX)
    (hc : ∀ text ∈ c.dbg.map (message c.now), l.AllowsMessage line text) :
    ∃ ret m', m.debug line.length c = some (ret, m') ∧ m'.Holds pid ((l.status line).debug c) ∧
      (ret = 0 → ∀ dbg ∈ c.dbg, (l.status line).debug c = (l.status line).add (message c.now dbg)) := by
  have hwide := Log.length_status hslot hline
  unfold Monitor.debug Log.debug
  cases hdbg : c.dbg with
  | none => exact ⟨0, m, rfl, h, fun _ dbg hmem => by cases hmem⟩
  | some dbg =>
      rw [hdbg] at hc
      obtain ⟨hint, hrefused | ⟨hmsg, hstatl⟩⟩ := hc (message c.now dbg) rfl
      · rw [← hwide] at hrefused
        simp only [if_pos hrefused]
        exact ⟨-1, m, showMessage_refused h hint hrefused, h, fun hret => absurd hret (by decide)⟩
      · have hstatl' : (l.status line).msgs = [] ∨ line.length = (l.status line).slot.length := by
          rw [hwide]
          exact hstatl.imp id fun hle => (Nat.max_eq_right hle).symm
        have hroom : ¬ MSIZE ≤ (message c.now dbg).length + (l.status line).slot.length + 1 :=
          not_msize_le hmsg h.narrow
        obtain ⟨m', hm', hholds⟩ := showMessage_ok h hmsg hstatl'
        simp only [if_neg hroom]
        refine ⟨0, m', hm', hholds, fun _ dbg' hmem => ?_⟩
        cases hmem
        rfl

/-- A call that the log allows does to the file what it should do to the log. -/
theorem monUpdate_ok {c : MonCall} (h : m.Holds pid l) (hc : l.Allows pid c) :
    ∃ ret m', monUpdate m c = some (ret, m') ∧ m'.Holds pid (l.update pid c) ∧
      (ret = 0 → ∀ name ∈ c.stat, ∀ dbg ∈ c.dbg,
        l.update pid c = (l.status (statusLine pid name)).add (message c.now dbg)) := by
  cases hstat : c.stat with
  | none =>
      have hupdate : monUpdate m c = some (-1, m) := by
        rw [monUpdate, if_neg (Int.not_lt.mpr h.opened), hstat]
      refine ⟨-1, m, hupdate, ?_, fun hret => absurd hret (by decide)⟩
      rw [Log.update, hstat]
      exact h
  | some name =>
      obtain ⟨tmp, htmp, heq⟩ := monUpdate_eq h.opened hstat
      rw [h.pid] at htmp heq
      obtain ⟨hint, hrefused | ⟨hline, hmsg⟩⟩ := hc name hstat
      · rw [if_pos hint, if_pos hrefused] at heq
        refine ⟨-1, m, heq, ?_, fun hret => absurd hret (by decide)⟩
        rw [Log.update, hstat]
        simp only [if_pos hrefused]
        exact h
      · have hroom : ¬ MSIZE ≤ (statusLine pid name).length + 1 :=
          not_msize_le (j := 0) hline (Nat.zero_le _)
        have hlog : l.update pid c = (l.status (statusLine pid name)).debug c := by
          rw [Log.update, hstat]
          exact if_neg hroom
        obtain ⟨m₁, hm₁, hholds⟩ := showStatus_ok h htmp hline
        obtain ⟨ret, m', hm', hholds', hadds⟩ := debug_ok hholds h.narrow hline hmsg
        rw [if_pos hint, if_neg hroom, hm₁, Option.bind_some, hm'] at heq
        refine ⟨ret, m', heq, hlog ▸ hholds', fun hret name' hname dbg hdbg => ?_⟩
        cases hname
        exact hlog.trans (hadds hret dbg hdbg)

theorem debug_none {c : MonCall} {line dbg : List UInt8} (h : m.Holds pid (l.status line))
    (hslot : l.slot.length ≤ MON_MSGLEN_MAX) (hline : line.length ≤ MON_MSGLEN_MAX)
    (hdbg : c.dbg = some dbg) (hmsg : ¬ l.AllowsMessage line (message c.now dbg)) :
    m.debug line.length c = none := by
  have hwide := Log.length_status hslot hline
  rw [Monitor.debug, hdbg]
  by_cases hint : ((message c.now dbg).length : Int) ≤ INT_MAX
  swap
  · exact showMessage_long hint
  obtain ⟨hroom, hout⟩ := not_or.mp fun hallowed => hmsg ⟨hint, hallowed⟩
  rw [← hwide] at hroom
  refine showMessage_none h (Nat.not_le.mp hroom) ?_
  by_cases hlong : (message c.now dbg).length ≤ MON_MSGLEN_MAX
  · obtain ⟨hmsgs, hshort⟩ := not_or.mp fun hallowed => hout ⟨hlong, hallowed⟩
    refine .inr ⟨hmsgs, ?_⟩
    rw [hwide]
    exact Nat.lt_of_lt_of_le (Nat.not_le.mp hshort) (Nat.le_max_left _ _)
  · exact .inl (Nat.not_le.mp hlong)

/-- Any other call leaves the buffer or the mapping. -/
theorem monUpdate_none {c : MonCall} (h : m.Holds pid l) (hc : ¬ l.Allows pid c) :
    monUpdate m c = none := by
  obtain ⟨name, hrest⟩ := Classical.not_forall.mp hc
  obtain ⟨hstat, hline⟩ := Classical.not_imp.mp hrest
  obtain ⟨tmp, htmp, heq⟩ := monUpdate_eq h.opened hstat
  rw [heq]
  rw [h.pid] at htmp ⊢
  split
  swap
  · rfl
  rename_i hint
  obtain ⟨hroom, hout⟩ := not_or.mp fun hallowed => hline ⟨hint, hallowed⟩
  rw [if_neg hroom]
  by_cases hlong : (statusLine pid name).length ≤ MON_MSGLEN_MAX
  · obtain ⟨m₁, hm₁, hholds⟩ := showStatus_ok h htmp hlong
    obtain ⟨text, hrest⟩ := Classical.not_forall.mp fun hallowed => hout ⟨hlong, hallowed⟩
    obtain ⟨htext, hmsg⟩ := Classical.not_imp.mp hrest
    obtain ⟨dbg, hdbg, rfl⟩ := Option.map_eq_some_iff.mp htext
    rw [hm₁, Option.bind_some]
    exact debug_none hholds h.narrow hlong hdbg hmsg
  · rw [showStatus_none h tmp (Nat.not_le.mp hlong)]
    rfl

/-! ## Runs -/

theorem monRun_ok {cs : List MonCall} (h : m.Holds pid l) (hcs : Orderly pid l cs) :
    ∃ m', monRun m cs = some m' ∧ m'.Holds pid (cs.foldl (Log.update pid) l) := by
  induction cs generalizing m l with
  | nil => exact ⟨m, rfl, h⟩
  | cons c cs ih =>
      obtain ⟨ret, m₁, hm₁, hholds, -⟩ := monUpdate_ok h hcs.1
      obtain ⟨m', hm', hholds'⟩ := ih hholds hcs.2
      refine ⟨m', ?_, hholds'⟩
      rw [monRun, hm₁]
      exact hm'

theorem orderly_append {cs ds : List MonCall} :
    Orderly pid l (cs ++ ds) ↔
      Orderly pid l cs ∧ Orderly pid (cs.foldl (Log.update pid) l) ds := by
  induction cs generalizing l with
  | nil => exact ⟨fun h => ⟨trivial, h⟩, fun h => h.2⟩
  | cons c cs ih =>
      rw [List.cons_append, Orderly, Orderly, ih, and_assoc]
      rfl

theorem inTmp_short {text : List UInt8} (htext : text.length < MON_MSGLEN_MAX) :
    (inTmp text).take text.length = text := by
  rw [inTmp, List.take_of_length_le (Nat.le_sub_one_of_lt htext), List.take_left]

/-- In the slot there are the line and blanks. -/
theorem Log.slot_status (l : Log) (line : List UInt8) :
    ∃ pad, (∀ b ∈ pad, b = 0 ∨ b = ascii ' ') ∧
      (l.status line).slot = line.take (MON_MSGLEN_MAX - 1) ++ pad := by
  have hle : (line.take (MON_MSGLEN_MAX - 1)).length ≤ max l.slot.length line.length := by
    rw [List.length_take]
    omega
  refine ⟨(0 :: List.replicate MON_MSGLEN_MAX (ascii ' ')).take
    (max l.slot.length line.length - (line.take (MON_MSGLEN_MAX - 1)).length), fun b hb => ?_, ?_⟩
  · rcases List.mem_cons.mp (List.mem_of_mem_take hb) with hb | hb
    · exact .inl hb
    · exact .inr (List.eq_of_mem_replicate hb)
  · rw [Log.status, inTmp, List.take_append, List.take_of_length_le hle]

end

/-- Each call of the run copies inside the buffer and the mapping.  If it returns 0 after a
debug string that fits into the buffer, the mapping shows the status line, something to
fill the slot, that message and the messages of the calls before, the newest first. -/
def Within (fd : Int) (pid : Nat) (calls : List MonCall) : Prop :=
  ∀ cs c, cs ++ [c] <+: calls →
    ∃ m ret m', monRun (monInit fd pid) cs = some m ∧ monUpdate m c = some (ret, m') ∧
      (ret = 0 → ∀ name ∈ c.stat, ∀ dbg ∈ c.dbg, (message c.now dbg).length < MON_MSGLEN_MAX →
        ∃ pad, (∀ b ∈ pad, b = 0 ∨ b = ascii ' ') ∧
          m'.mem.Shows ((statusLine pid name).take (MON_MSGLEN_MAX - 1) ++ pad ++
            message c.now dbg ++ (Log.run pid cs).msgs.flatten ++
              List.replicate MSIZE (ascii '\r')))

/-- In a run that stays inside the log allows each call. -/
theorem Within.allows {fd : Int} {pid : Nat} {calls : List MonCall} {c : MonCall}
    (h : Within fd pid calls) (hfd : 0 ≤ fd) (cs : List MonCall) (hpre : cs ++ [c] <+: calls)
    (hcs : Orderly pid .empty cs) :
    (Log.run pid cs).Allows pid c := by
  obtain ⟨m, ret, m', hm, hupdate, -⟩ := h cs c hpre
  obtain ⟨m₁, hm₁, hholds⟩ := monRun_ok (holds_init hfd) hcs
  cases hm₁.symm.trans hm
  by_contra hnot
  cases (monUpdate_none hholds hnot).symm.trans hupdate

/-- A run stays inside exactly if each call is one the log allows: the line and the message
have room in the buffer (or are so long that they are refused), and a line is not shorter
than the slot once there are messages to be moved. -/
theorem within_iff (fd : Int) (pid : Nat) (calls : List MonCall) (hfd : 0 ≤ fd) :
    Within fd pid calls ↔ Orderly pid .empty calls := by
  constructor
  · intro hwithin
    have hall : ∀ cs, cs <+: calls → Orderly pid .empty cs := by
      intro cs
      induction cs using List.reverseRecOn with
      | nil => exact fun _ => trivial
      | append_singleton cs c ih =>
          intro hpre
          have horderly := ih ((List.prefix_append cs [c]).trans hpre)
          exact orderly_append.mpr ⟨horderly, hwithin.allows hfd cs hpre horderly, trivial⟩
    exact hall calls (List.prefix_refl calls)
  · rintro horderly cs c ⟨rest, rfl⟩
    obtain ⟨hcs, hc, -⟩ := orderly_append.mp (orderly_append.mp horderly).1
    obtain ⟨m, hm, hholds⟩ := monRun_ok (holds_init hfd) hcs
    obtain ⟨ret, m', hupdate, hholds', hadds⟩ := monUpdate_ok hholds hc
    refine ⟨m, ret, m', hm, hupdate, fun hret name hname dbg hdbg hfits => ?_⟩
    obtain ⟨pad, hpad, hslot⟩ := (cs.foldl (Log.update pid) .empty).slot_status (statusLine pid name)
    have hshows := hholds'.shows
    rw [hadds hret name hname dbg hdbg, Log.text_eq, Log.behind_add, inTmp_short hfits, Log.behind,
      Log.add, hslot, ← List.append_assoc, ← List.append_assoc] at hshows
    exact ⟨pad, hpad, hshows⟩

/-! ## The callers -/

/-- The text left in a buffer by two calls of `snprintf`, the second where the first ended. -/
def formed {n : Nat} (buffer : Block UInt8 n) (head text : List UInt8) : Option (List UInt8) := do
  let buffer ← buffer.print 0 0 head
  let buffer ← buffer.print 0 head.length text
  some (upto 0 buffer.cells)

/-- The debug string of `_stk_log`. -/
def stkLogText (tmp : Block UInt8 512) (name text : List UInt8) : Option (List UInt8) :=
  formed tmp (asciis "(" ++ name ++ asciis ")") text

/-- That of `stk_excp`, by `_expmsg_extra`. -/
def expmsgExtra (msg : Block UInt8 256) (name : Option (List UInt8)) (func : List UInt8) (line : Nat)
    (text : List UInt8) : Option (List UInt8) :=
  formed msg (asciis "(" ++ name.getD (asciis "NULL") ++ asciis ")" ++ func ++ asciis "," ++
    asciis (Nat.repr line) ++ asciis ":") text

/-- Whatever was in the buffer, the string ends in it. -/
theorem length_formed {n : Nat} {buffer : Block UInt8 n} {head text dbg : List UInt8} (hn : 0 < n)
    (h : formed buffer head text = some dbg) : dbg.length < n := by
  obtain ⟨b₁, h₁, h⟩ := Option.bind_eq_some_iff.mp h
  obtain ⟨b₂, h₂, h⟩ := Option.bind_eq_some_iff.mp h
  cases h
  have hfirst := Block.mem_of_print h₁ fun h0 => absurd h0 (Nat.ne_of_lt hn)
  obtain ⟨s, t, hcells, hs⟩ := List.eq_append_cons_of_mem (Block.mem_of_print h₂ fun _ => hfirst)
  have hsize := b₂.size
  rw [hcells, List.length_append, List.length_cons] at hsize
  rw [hcells, upto_append hs]
  omega

/-! ## Two runs -/

/-- A time. -/
def noon : Stamp := ⟨asciis "2024-01-01|12:00:00:", by decide⟩

/-- A wider line after a message. -/
theorem within_wider : Within 3 1
    [⟨some (asciis "Sync"), some (asciis "(Sync)a"), noon⟩,
      ⟨some (asciis "Net Down"), some (asciis "(Net Down)b"), noon⟩] := by
  refine (within_iff 3 1 _ (by decide)).mpr ⟨?_, ?_, trivial⟩
  · intro name hname
    cases hname
    refine ⟨by decide +kernel, .inr ⟨by decide +kernel, fun text htext => ?_⟩⟩
    cases htext
    exact ⟨by decide +kernel, .inr ⟨by decide +kernel, .inl rfl⟩⟩
  · intro name hname
    cases hname
    refine ⟨by decide +kernel, .inr ⟨by decide +kernel, fun text htext => ?_⟩⟩
    cases htext
    exact ⟨by decide +kernel, .inr ⟨by decide +kernel, .inr (by decide +kernel)⟩⟩

/-- A message of `_stk_log` with a text of 96 bytes is longer than the buffer; and a message in a
state with a shorter name comes after one in a state with a longer name. -/
theorem not_within :
    (∃ dbg, stkLogText (.fill 512 0) (asciis "Net Down") (List.replicate 96 (ascii 'e')) = some dbg ∧
      ¬ Within 3 1 [⟨some (asciis "Net Down"), some dbg, noon⟩]) ∧
    ¬ Within 3 1
      [⟨some (asciis "Net Down"), some (asciis "(Net Down)a"), noon⟩,
        ⟨some (asciis "Idle"), some (asciis "(Idle)b"), noon⟩] := by
  constructor
  · refine ⟨asciis "(Net Down)" ++ List.replicate 96 (ascii 'e'), by decide +kernel, fun h => ?_⟩
    obtain ⟨-, hrefused | ⟨-, hmsg⟩⟩ :=
      h.allows (by decide) [] (List.prefix_refl _) trivial (asciis "Net Down") rfl
    · exact absurd hrefused (by decide +kernel)
    obtain ⟨-, hrefused | ⟨hfits, -⟩⟩ := hmsg _ rfl
    · exact absurd hrefused (by decide +kernel)
    · exact absurd hfits (by decide +kernel)
  · intro h
    have hfirst : Log.empty.Allows 1 ⟨some (asciis "Net Down"), some (asciis "(Net Down)a"), noon⟩ :=
      h.allows (by decide) [] ⟨_, rfl⟩ trivial
    obtain ⟨-, hrefused | ⟨-, hmsg⟩⟩ := h.allows (by decide) [_] (List.prefix_refl _)
      ⟨hfirst, trivial⟩ (asciis "Idle") rfl
    · exact absurd hrefused (by decide +kernel)
    obtain ⟨-, hrefused | ⟨-, hnone | hnarrow⟩⟩ := hmsg _ rfl
    · exact absurd hrefused (by decide +kernel)
    · exact absurd hnone (by decide +kernel)
    · exact absurd hnarrow (by decide +kernel)

end AdvVcom
