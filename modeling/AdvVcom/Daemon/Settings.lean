/-
# `AdvVcom.Daemon.Settings` — `eki`, the view and the device

`eki` is the daemon's record of what it has told the device; `devOf` is what a device
that obeys the packets of a connection has been set to.  Both are compared with the
views the driver writes (`Driven`).

**Proved here**, for one round of `vc_common_ioctl`:

    it keeps the mirror between `eki` and the device         (`Mirrors.round`)
    it leaves one group of settings fewer behind the view    (`behind_round`)
    with nothing left to send `eki` has every setting        (`inSync_of_nil`)

For RTS and DTR more is true than for the other settings: Sync sends both right
after OPEN, so there is no reset marker to speak of.
-/
import AdvVcom.Daemon.Aloof

namespace AdvVcom

open Lib

/-! ## The device -/

/-- What the device has been set to; `none` before the first packet that says. -/
structure Dev where
  baud : Option Int
  /-- Parity, data bits and stop bits. -/
  lctl : Option (Int × Int × Int)
  flowctl : Option Int
  rts : Option Bool
  dtr : Option Bool

/-- The flow control that the two words of a SET_HANDFLOW stand for. -/
def flowOf (chflow flowrep : UInt32) : Option Int :=
  if chflow = 0x09000000 ∧ flowrep = 0x80000080 then some ADV_FLOW_RTSCTS
  else if chflow = 0x01000000 ∧ flowrep = 0x43000080 then some ADV_FLOW_XONXOFF
  else if chflow = 0x01000000 ∧ flowrep = 0x40000080 then some ADV_FLOW_NONE
  else none

def Dev.apply (d : Dev) : Pkt → Dev
  | .sbaud _ baud => { d with baud := some baud.toNat }
  | .setlctl _ pair dbit sbit => { d with lctl := some (pair.toNat, dbit.toNat, sbit.toNat) }
  | .hflow _ chflow flowrep => { d with flowctl := flowOf chflow flowrep }
  | .param _ subcmd =>
      if subcmd = VCOM_IOCTL_SET_RTS then { d with rts := some true }
      else if subcmd = VCOM_IOCTL_CLR_RTS then { d with rts := some false }
      else if subcmd = VCOM_IOCTL_SET_DTR then { d with dtr := some true }
      else if subcmd = VCOM_IOCTL_CLR_DTR then { d with dtr := some false }
      else d
  | _ => d

/-- The packets of a connection, applied in order. -/
def devOf (ps : List Pkt) : Dev := ps.foldl Dev.apply ⟨none, none, none, none, none⟩

theorem devOf_append (w ps : List Pkt) : devOf (w ++ ps) = ps.foldl Dev.apply (devOf w) := by
  simp [devOf, List.foldl_append]

/-- Packets that set nothing. -/
theorem devOf_idle {w ps : List Pkt} (h : ∀ p ∈ ps, ∀ d : Dev, d.apply p = d) :
    devOf (w ++ ps) = devOf w := by
  rw [devOf_append]
  generalize devOf w = d
  induction ps with
  | nil => rfl
  | cons p ps ih =>
      rw [List.foldl_cons, h p (by simp)]
      exact ih fun q hq => h q (by simp [hq])

theorem Pkt.Plain.idle {p : Pkt} (h : p.Plain) (d : Dev) : d.apply p = d := by
  cases p with
  | qfsize | setwmask => rfl
  | param tid subcmd => rcases h with rfl | rfl | rfl <;> rfl
  | _ => exact h.elim

theorem Pkt.IsXmit.idle {p : Pkt} (h : p.IsXmit) (d : Dev) : d.apply p = d := by
  cases p with
  | xmit => rfl
  | _ => exact h.elim

theorem Pkt.IsBye.idle {p : Pkt} (h : p.IsBye) (d : Dev) : d.apply p = d := by
  cases p with
  | purge | close => rfl
  | _ => exact h.elim

/-! ## Views -/

/-- What the driver writes into a view: the zeros of a fresh port, or the result of
`adv_uart_set_termios` and `adv_uart_set_mctrl`. -/
structure Driven (v : PortInfo) : Prop where
  isOpen : v.isOpen = 0 ∨ v.isOpen = 1
  baud : v.baud = 0 ∨ 50 ≤ v.baud ∧ v.baud ≤ 921600
  byte : v.byte = 0 ∨ 5 ≤ v.byte ∧ v.byte ≤ 8
  pair : 0 ≤ v.pair ∧ v.pair ≤ 4
  stop : v.stop = 0 ∨ v.stop = 2
  flowctl : 0 ≤ v.flowctl ∧ v.flowctl ≤ 2
  ms : v.ms &&& (ADV_MS_RTS ||| ADV_MS_DTR) = v.ms

/-- A view after `adv_uart_set_termios`: the zeros are gone. -/
structure Ranged (v : PortInfo) : Prop extends Driven v where
  baud_set : 50 ≤ v.baud
  byte_set : 5 ≤ v.byte

/-- A device that has every setting of a view. -/
def Dev.ofView (v : PortInfo) : Dev where
  baud := some v.baud
  lctl := some (v.pair, v.byte, v.stop)
  flowctl := some v.flowctl
  rts := some (decide (v.ms &&& ADV_MS_RTS ≠ 0))
  dtr := some (decide (v.ms &&& ADV_MS_DTR ≠ 0))

/-! ## The mirror -/

/-- Each setting of `eki` is at its reset marker or is what the device has. -/
structure Mirrors (eki : PortInfo) (d : Dev) : Prop where
  baud : eki.baud = ekiReset.baud ∨ d.baud = some eki.baud
  lctl : (eki.pair = ekiReset.pair ∧ eki.byte = ekiReset.byte ∧ eki.stop = ekiReset.stop) ∨
    d.lctl = some (eki.pair, eki.byte, eki.stop)
  flowctl : eki.flowctl = ekiReset.flowctl ∨ d.flowctl = some eki.flowctl
  rts : d.rts = some (decide (eki.ms &&& ADV_MS_RTS ≠ 0))
  dtr : d.dtr = some (decide (eki.ms &&& ADV_MS_DTR ≠ 0))

theorem apply_rtsPkt (d : Dev) (tid ms : UInt32) :
    d.apply (rtsPkt tid ms) = { d with rts := some (decide (ms &&& ADV_MS_RTS ≠ 0)) } := by
  unfold rtsPkt
  split
  · rename_i h
    rw [decide_eq_true h]
    rfl
  · rename_i h
    rw [decide_eq_false h]
    rfl

theorem apply_dtrPkt (d : Dev) (tid ms : UInt32) :
    d.apply (dtrPkt tid ms) = { d with dtr := some (decide (ms &&& ADV_MS_DTR ≠ 0)) } := by
  unfold dtrPkt
  split
  · rename_i h
    rw [decide_eq_true h]
    rfl
  · rename_i h
    rw [decide_eq_false h]
    rfl

theorem apply_hflowPkt (d : Dev) (tid : UInt32) {flowctl : Int} (h : 0 ≤ flowctl ∧ flowctl ≤ 2) :
    d.apply (hflowPkt tid flowctl) = { d with flowctl := some flowctl } := by
  have hcases : flowctl = 0 ∨ flowctl = 1 ∨ flowctl = 2 := by omega
  rcases hcases with rfl | rfl | rfl
  · rfl
  · rfl
  · rfl

/-- After the packets of `_set_ms` the device has both lines of the view. -/
theorem foldl_setMsPkts {d : Dev} {ekiMs uartMs tid : UInt32}
    (hrts : d.rts = some (decide (ekiMs &&& ADV_MS_RTS ≠ 0)))
    (hdtr : d.dtr = some (decide (ekiMs &&& ADV_MS_DTR ≠ 0))) :
    (setMsPkts ekiMs uartMs tid).foldl Dev.apply d =
      { d with rts := some (decide (uartMs &&& ADV_MS_RTS ≠ 0)),
               dtr := some (decide (uartMs &&& ADV_MS_DTR ≠ 0)) } := by
  unfold setMsPkts
  split
  · rename_i hr
    rw [hr] at hrts
    split
    · rename_i hd
      rw [hd] at hdtr
      rw [← hrts, ← hdtr]
      rfl
    · rw [List.foldl_cons, List.foldl_nil, apply_dtrPkt, ← hrts]
  · split
    · rename_i hd
      rw [hd] at hdtr
      rw [List.foldl_cons, List.foldl_nil, apply_rtsPkt, ← hdtr]
    · rw [List.foldl_cons, List.foldl_cons, List.foldl_nil, apply_rtsPkt, apply_dtrPkt]

/-- **One round of settings keeps the mirror.** -/
theorem Mirrors.round {s : VcAttr} {w : List Pkt} (h : Mirrors s.eki (devOf w))
    (hv : Driven s.view) :
    Mirrors (ioctlRound s).2.eki (devOf (w ++ (ioctlRound s).1)) := by
  obtain ⟨hbaud, hlctl, hflow, hrts, hdtr⟩ := h
  rw [devOf_append]
  generalize devOf w = d at *
  unfold ioctlRound
  split
  · have hnat : ((UInt32.ofInt s.view.baud).toNat : Int) = s.view.baud := by
      have hb := hv.baud
      rw [UInt32.ofInt, UInt32.toNat_ofNat']
      omega
    exact ⟨Or.inr (congrArg some hnat), hlctl, hflow, hrts, hdtr⟩
  split
  · have hbyte {x : Int} (hlo : 0 ≤ x) (hhi : x ≤ 8) : ((UInt8.ofInt x).toNat : Int) = x := by
      rw [UInt8.ofInt, UInt8.toNat_ofNat']
      omega
    have h₁ := hbyte hv.pair.1 (by have := hv.pair; omega)
    have h₂ := hbyte (x := s.view.byte) (by have := hv.byte; omega) (by have := hv.byte; omega)
    have h₃ := hbyte (x := s.view.stop) (by have := hv.stop; omega) (by have := hv.stop; omega)
    refine ⟨hbaud, Or.inr ?_, hflow, hrts, hdtr⟩
    show some (((UInt8.ofInt s.view.pair).toNat : Int), ((UInt8.ofInt s.view.byte).toNat : Int),
      ((UInt8.ofInt s.view.stop).toNat : Int)) = some (s.view.pair, s.view.byte, s.view.stop)
    rw [h₁, h₂, h₃]
  split
  · rw [List.foldl_cons, List.foldl_nil, apply_hflowPkt d s.tid hv.flowctl]
    exact ⟨hbaud, hlctl, Or.inr rfl, hrts, hdtr⟩
  split
  · simp only
    rw [foldl_setMsPkts hrts hdtr]
    exact ⟨hbaud, hlctl, hflow, rfl, rfl⟩
  · exact ⟨hbaud, hlctl, hflow, hrts, hdtr⟩

/-! ## The length of what is sent -/

theorem Pkt.Tame.plen_pos {p : Pkt} (h : p.Tame) : 0 < p.plen 1024 := by
  cases p with
  | qfsize | sbaud | setlctl | hflow | setwmask | param => simp
  | _ => exact h.elim

theorem plenOf_nonneg {ps : List Pkt} (htame : ∀ p ∈ ps, p.Tame) : 0 ≤ plenOf ps := by
  induction ps with
  | nil => exact Int.le_refl 0
  | cons p ps ih =>
      have hhead := (htame p (by simp)).plen_pos
      have htail := ih fun q hq => htame q (by simp [hq])
      simp only [plenOf, List.map_cons, List.sum_cons] at htail ⊢
      omega

/-- The packers fail on no settings packet, so a length of 0 means no packet. -/
theorem plenOf_pos {ps : List Pkt} (htame : ∀ p ∈ ps, p.Tame) (hne : ps ≠ []) : 0 < plenOf ps := by
  obtain ⟨p, ps, rfl⟩ := List.exists_cons_of_ne_nil hne
  have hhead := (htame p (by simp)).plen_pos
  have htail := plenOf_nonneg fun q hq => htame q (List.mem_cons_of_mem p hq)
  simp only [plenOf, List.map_cons, List.sum_cons] at htail ⊢
  omega

/-! ## One pass

The rounds of `vc_common_ioctl` when every send succeeds: each makes one group of
settings equal to the view and touches no other. -/

/-- How many groups of settings differ from the view. -/
def behind (s : VcAttr) : Nat :=
  (if s.view.baud ≠ s.eki.baud then 1 else 0) + (if vcCheckComset s then 1 else 0) +
    (if s.view.flowctl ≠ s.eki.flowctl then 1 else 0) + (if s.view.ms ≠ s.eki.ms then 1 else 0)

/-- `eki` has every setting of the view. -/
def InSync (s : VcAttr) : Prop :=
  s.eki.baud = s.view.baud ∧ s.eki.pair = s.view.pair ∧ s.eki.byte = s.view.byte ∧
    s.eki.stop = s.view.stop ∧ s.eki.flowctl = s.view.flowctl ∧ s.eki.ms = s.view.ms

theorem vcCheckComset_eq_false {s : VcAttr} : vcCheckComset s = false ↔
    s.eki.pair = s.view.pair ∧ s.eki.byte = s.view.byte ∧ s.eki.stop = s.view.stop := by
  simp only [vcCheckComset, Bool.or_eq_false_iff, bne_eq_false_iff_eq]
  constructor
  · rintro ⟨⟨h₁, h₂⟩, h₃⟩
    exact ⟨h₁.symm, h₃.symm, h₂.symm⟩
  · rintro ⟨h₁, h₂, h₃⟩
    exact ⟨⟨h₁.symm, h₃.symm⟩, h₂.symm⟩

theorem ioctlRound_inSync {s : VcAttr} (h : InSync s) : ioctlRound s = ([], s) := by
  obtain ⟨h₁, h₂, h₃, h₄, h₅, h₆⟩ := h
  have hcom : vcCheckComset s = false := vcCheckComset_eq_false.mpr ⟨h₂, h₃, h₄⟩
  simp [ioctlRound, h₁, hcom, h₅, h₆]

/-- A round with nothing to send leaves `eki` in sync. -/
theorem inSync_of_nil {s : VcAttr} (h : (ioctlRound s).1 = []) : InSync (ioctlRound s).2 := by
  unfold ioctlRound at h ⊢
  split at h
  · cases h
  split at h
  · cases h
  split at h
  · cases h
  rename_i hbaud hcom hflow
  rw [if_neg hbaud, if_neg hcom, if_neg hflow]
  obtain ⟨hpair, hbyte, hstop⟩ := vcCheckComset_eq_false.mp (Bool.not_eq_true _ ▸ hcom)
  have hbaud := (not_not.mp hbaud).symm
  have hflow := (not_not.mp hflow).symm
  split
  · exact ⟨hbaud, hpair, hbyte, hstop, hflow, rfl⟩
  · rename_i hms
    exact ⟨hbaud, hpair, hbyte, hstop, hflow, (not_not.mp hms).symm⟩

/-- A round that sends something is one group closer. -/
theorem behind_round {s : VcAttr} (h : (ioctlRound s).1 ≠ []) :
    behind (ioctlRound s).2 + 1 = behind s := by
  have hcom (t : UInt32) (k : PortInfo) (h₁ : k.pair = s.eki.pair) (h₂ : k.stop = s.eki.stop)
      (h₃ : k.byte = s.eki.byte) :
      vcCheckComset { s with tid := t, eki := k } = vcCheckComset s := by
    simp [vcCheckComset, h₁, h₂, h₃]
  unfold ioctlRound at h ⊢
  split
  · rename_i hbaud
    have := hcom s.tid { s.eki with baud := s.view.baud } rfl rfl rfl
    simp only [behind, this, ne_eq, not_true_eq_false, if_false, hbaud, not_false_eq_true, if_true]
    omega
  split
  · rename_i hbaud hset
    have hnone : vcCheckComset { s with eki := { s.eki with
        pair := s.view.pair, stop := s.view.stop, byte := s.view.byte } } = false :=
      vcCheckComset_eq_false.mpr ⟨rfl, rfl, rfl⟩
    simp only [behind, hnone, hset, if_true, hbaud, if_false, Bool.false_eq_true]
    omega
  split
  · rename_i hbaud hset hflow
    have := hcom s.tid { s.eki with flowctl := s.view.flowctl } rfl rfl rfl
    simp only [behind, this, hset, hbaud, if_false, ne_eq, not_true_eq_false, hflow,
      not_false_eq_true, if_true]
    omega
  split
  · rename_i hbaud hset hflow hms
    have := hcom (s.tid + UInt32.ofNat (setMsPkts s.eki.ms s.view.ms s.tid).length)
      { s.eki with ms := s.view.ms } rfl rfl rfl
    simp only [behind, this, hset, hbaud, hflow, if_false, ne_eq, not_true_eq_false, hms,
      not_false_eq_true, if_true]
  · rename_i hbaud hset hflow hms
    simp [hbaud, hset, hflow, hms] at h

/-- In sync with a view that has no marker, the mirror is exact. -/
theorem Mirrors.dev_eq {s : VcAttr} {d : Dev} (h : Mirrors s.eki d) (hsync : InSync s)
    (hv : Ranged s.view) : d = Dev.ofView s.view := by
  obtain ⟨h₁, h₂, h₃, h₄, h₅, h₆⟩ := hsync
  obtain ⟨hbaud, hlctl, hflow, hrts, hdtr⟩ := h
  have hb := hv.baud_set
  have hy := hv.byte_set
  have hf := hv.flowctl
  rw [h₁] at hbaud
  rw [h₂, h₃, h₄] at hlctl
  rw [h₅] at hflow
  rw [h₆] at hrts hdtr
  simp only [ekiReset, PortInfo.zero, ADV_FLOW_UNDEF] at hbaud hlctl hflow
  have hbaud := hbaud.resolve_left (by omega)
  have hlctl := hlctl.resolve_left (by omega)
  have hflow := hflow.resolve_left (by omega)
  cases d
  simp only at hbaud hlctl hflow hrts hdtr
  rw [hbaud, hlctl, hflow, hrts, hdtr]
  rfl

theorem behind_le (s : VcAttr) : behind s ≤ 4 := by
  unfold behind
  split <;> split <;> split <;> split <;> omega

end AdvVcom
