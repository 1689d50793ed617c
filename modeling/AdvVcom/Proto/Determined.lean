/-
# `AdvVcom.Proto.Determined` — what goes on the wire is what was asked for

The packers fill a buffer on the stack that nobody has cleared.  A packer is
*determined* if what it returns and the bytes it returns do not depend on what
the buffer held before.  This is a statement about two runs:

    same length, and the first `plen` bytes equal

Every packer assigns the twelve header bytes and both parameters
(`packed_agree`), so it comes down to the overlay.  All overlays are assigned
completely except that of `vc_pack_hflow`, which assigns `xonlimit` twice and
`xofflimit`, the last four of its 36 bytes, not at all:

    determined  ⟺  not `hflow`, or the buffer is too short for it   (`PackCall.determined_iff`)
    two SET_HANDFLOW packets that differ                             (`hflow_leaks`)

`_set_ms` puts one or two packets behind each other into one buffer; the same
two-run argument goes through both steps (`setMs_determined`).
-/
import AdvVcom.Proto.Packet

namespace AdvVcom

open Lib Lib.Mem

/-! ## The two-run property -/

/-- The returned length, and the bytes it counts, do not depend on the buffer. -/
def Determined (pack : Mem → Int × Mem) : Prop :=
  ∀ m m' : Mem, (pack m).1 = (pack m').1 ∧
    (pack m).2.slice 0 (pack m).1.toNat = (pack m').2.slice 0 (pack m).1.toNat

/-- The header and the parameters are the same in both runs: they are written in
order, each field where the one before it ends. -/
theorem packed_agree (m m' : Mem) (tid : UInt32) (cmd len : Nat) (p1 p2 : UInt32) :
    ∀ i, i < 20 → setParam (vcInitHdr m tid cmd len) p1 p2 i
      = setParam (vcInitHdr m' tid cmd len) p1 p2 i := by
  intro i hi
  simp only [setParam, vcInitHdr]
  refine blit_extend (fun i hi => ?_) hi
  refine blit_extend (fun i hi => ?_) hi
  refine blit_extend (fun i hi => ?_) hi
  refine blit_extend (fun i hi => ?_) hi
  refine blit_extend (fun i hi => ?_) hi
  exact blit_extend (fun i hi => absurd hi (Nat.not_lt_zero i)) hi

/-- A packer is determined as soon as its overlay is: the fields make two buffers
that agree on the first 20 bytes agree on the whole packet. -/
theorem packWith_determined {plen buflen : Int} {tid : UInt32} {cmd len : Nat} {p1 p2 : UInt32}
    {fields : Mem → Mem}
    (h : ∀ m m' : Mem, (∀ i, i < 20 → m i = m' i) →
      ∀ i : Nat, (i : Int) < plen → fields m i = fields m' i) :
    Determined (packWith plen buflen tid cmd len p1 p2 fields) := by
  intro m m'
  unfold packWith
  split
  · exact ⟨rfl, rfl⟩
  · refine ⟨rfl, slice_congr fun i _ hi => ?_⟩
    exact h _ _ (packed_agree m m' tid cmd len p1 p2) i (by simp only at hi; omega)

/-- No overlay beyond the parameters. -/
theorem packWith_param_determined {buflen : Int} {tid : UInt32} {cmd len : Nat} {p1 p2 : UInt32} :
    Determined (packWith (vcPackSize .param) buflen tid cmd len p1 p2 id) := by
  refine packWith_determined fun m m' h i hi => h i ?_
  simp only [vcPackSize, HDR_SIZE, Attach.sizeof] at hi
  omega

/-- One word behind the parameters. -/
theorem packWith_word_determined {buflen : Int} {tid : UInt32} {cmd len : Nat} {p1 p2 : UInt32}
    {word : List UInt8} (hword : word.length = 4) :
    Determined (packWith (vcPackSize .uint32) buflen tid cmd len p1 p2
      fun m => m.blit 20 word) := by
  refine packWith_determined fun m m' h i hi => blit_extend h ?_
  simp only [vcPackSize, HDR_SIZE, Attach.sizeof] at hi
  omega

theorem vcPackXmit_determined {tid : UInt32} {datalen : Int} {data : Mem} {buflen : Int} :
    Determined fun m => vcPackXmit m tid (int32 datalen) (some data) buflen := by
  refine packWith_determined fun m m' h i hi => blit_extend h ?_
  have hrange := int32_range datalen
  simp only [length_slice]
  -- a sum that wraps gives a negative length, and then no byte is returned
  by_cases hlt : vcPackSize .param + int32 datalen < 2147483648
  · rw [int32_eq (by simp only [vcPackSize, HDR_SIZE, Attach.sizeof]; omega) hlt] at hi
    simp only [vcPackSize, HDR_SIZE, Attach.sizeof] at hi
    omega
  · have hwrap : int32 (vcPackSize .param + int32 datalen) < 0 := by
      unfold int32 at *
      simp only [vcPackSize, HDR_SIZE, Attach.sizeof] at *
      rw [Int.bmod_def]
      split <;> omega
    omega

theorem vcPackSetlctl_determined {tid : UInt32} {pair dbit sbit : UInt8} {buflen : Int} :
    Determined fun m => vcPackSetlctl m tid pair dbit sbit buflen := by
  refine packWith_determined fun m m' h i hi => ?_
  simp only [vcPackSize, HDR_SIZE, Attach.sizeof] at hi
  have hcase : i < 20 ∨ i = 20 ∨ i = 21 ∨ i = 22 := by omega
  rcases hcase with hlt | rfl | rfl | rfl
  · exact blit_congr (Or.inl (blit_congr (Or.inl (blit_congr (Or.inl (h i hlt))))))
  · exact blit_congr (Or.inr (by simp))
  · exact blit_congr (Or.inl (blit_congr (Or.inl (blit_congr (Or.inr (by simp))))))
  · exact blit_congr (Or.inl (blit_congr (Or.inr (by simp))))

/-! ## Hand-flow packets -/

/-- The last word of a SET_HANDFLOW packet is what the buffer held before. -/
theorem vcPackHflow_xofflimit {m : Mem} {tid chflow flowrep : UInt32} {buflen : Int}
    (hbuf : 36 ≤ buflen) {i : Nat} (hlo : 32 ≤ i) :
    (vcPackHflow m tid chflow flowrep buflen).2 i = m i := by
  have hfit : ¬ vcPackSize .hflow > buflen := by
    simp only [vcPackSize, HDR_SIZE, Attach.sizeof]; omega
  simp only [vcPackHflow, packWith, hfit, if_false, setParam, vcInitHdr]
  have hout (off : Nat) (bs : List UInt8) (hb : off + bs.length ≤ 32) (m' : Mem) :
      m'.blit off bs i = m' i := blit_above (by omega)
  rw [hout 28 _ (by simp), hout 28 _ (by simp), hout 24 _ (by simp), hout 20 _ (by simp),
    hout 16 _ (by simp), hout 12 _ (by simp), hout 10 _ (by simp), hout 8 _ (by simp),
    hout 4 _ (by simp), hout 0 _ (by simp)]

theorem vcPackHflow_determined_iff {tid chflow flowrep : UInt32} {buflen : Int} :
    Determined (fun m => vcPackHflow m tid chflow flowrep buflen) ↔ buflen < 36 := by
  constructor
  · intro h
    by_contra hbuf
    have hfit : ¬ vcPackSize .hflow > buflen := by
      simp only [vcPackSize, HDR_SIZE, Attach.sizeof]; omega
    have hplen (m : Mem) : (vcPackHflow m tid chflow flowrep buflen).1 = 36 := by
      simp only [vcPackHflow, packWith, hfit, if_false]
      rfl
    obtain ⟨-, hbytes⟩ := h (fun _ => 0) (fun _ => 1)
    rw [hplen] at hbytes
    have h32 := congrArg (fun bs => bs[32]?) hbytes
    simp [slice, vcPackHflow_xofflimit (show (36 : Int) ≤ buflen by omega) (i := 32) (by omega)] at h32
  · intro hbuf m m'
    have hshort : vcPackSize .hflow > buflen := by
      simp only [vcPackSize, HDR_SIZE, Attach.sizeof]; omega
    simp [vcPackHflow, packWith, hshort, slice]

/-! ## `_set_ms` -/

/-- The variables of `_set_ms`. -/
structure MsBuf where
  plen : Int
  tid : UInt32
  buf : Mem

/-- Pack behind the packets so far; a packer that returns 0 adds none. -/
def appendPacket (pack : Mem → UInt32 → Int → Int × Mem) (buflen : Int) (s : MsBuf) : MsBuf :=
  let (len, packet) := pack (s.buf.shift s.plen.toNat) s.tid (buflen - s.plen)
  let buf := s.buf.splice s.plen.toNat packet
  if len ≤ 0 then { s with buf := buf }
  else { plen := s.plen + len, tid := s.tid + 1, buf := buf }

/-- One step of the loop: a packet for a line that differs. -/
def setMsStep (ekiMs uartMs bit : UInt32) (set clr : Mem → UInt32 → Int → Int × Mem)
    (buflen : Int) (s : MsBuf) : MsBuf :=
  if ekiMs &&& bit = uartMs &&& bit then s
  else if uartMs &&& bit ≠ 0 then appendPacket set buflen s
  else appendPacket clr buflen s

/-- `_set_ms`: RTS first, then DTR. -/
def setMs (ekiMs uartMs tid : UInt32) (buflen : Int) (pbuf : Mem) : MsBuf :=
  setMsStep ekiMs uartMs ADV_MS_DTR vcPackSetdtr vcPackClrdtr buflen
    (setMsStep ekiMs uartMs ADV_MS_RTS vcPackSetrts vcPackClrrts buflen
      { plen := 0, tid := tid, buf := pbuf })

/-- Two runs of `_set_ms` are at the same place with the same bytes so far. -/
structure MsBuf.Same (s s' : MsBuf) : Prop where
  plen : s.plen = s'.plen
  tid : s.tid = s'.tid
  nonneg : 0 ≤ s.plen
  bytes : ∀ i : Nat, (i : Int) < s.plen → s.buf i = s'.buf i

/-- Packing behind bytes that agree gives more bytes that agree. -/
theorem appendPacket_same {pack : Mem → UInt32 → Int → Int × Mem}
    (hpack : ∀ tid n, Determined fun m => pack m tid n) {buflen : Int} {s s' : MsBuf}
    (h : s.Same s') : (appendPacket pack buflen s).Same (appendPacket pack buflen s') := by
  obtain ⟨plen, tid, m⟩ := s
  obtain ⟨plen', tid', m'⟩ := s'
  obtain ⟨rfl, rfl, hnn, hbytes⟩ := h
  simp only at hnn hbytes
  obtain ⟨hlen, hnew⟩ := hpack tid (buflen - plen) (m.shift plen.toNat) (m'.shift plen.toNat)
  simp only [appendPacket]
  simp only at hlen hnew
  rw [← hlen]
  split
  · refine ⟨rfl, rfl, hnn, fun i hi => ?_⟩
    have hlt : i < plen.toNat := by simp only at hi; omega
    simp only [splice, hlt, if_true]
    exact hbytes i hi
  · refine ⟨rfl, rfl, by simp only; omega, fun i hi => ?_⟩
    simp only [splice] at hi ⊢
    split
    · exact hbytes i (by omega)
    · have hat := congrArg (fun bs => bs[i - plen.toNat]?) hnew
      have hlt : i - plen.toNat < (pack (m.shift plen.toNat) tid (buflen - plen)).1.toNat := by
        omega
      simpa [slice, hlt] using hat

theorem setMsStep_same {ekiMs uartMs bit : UInt32} {set clr : Mem → UInt32 → Int → Int × Mem}
    (hset : ∀ tid n, Determined fun m => set m tid n)
    (hclr : ∀ tid n, Determined fun m => clr m tid n) {buflen : Int} {s s' : MsBuf}
    (h : s.Same s') :
    (setMsStep ekiMs uartMs bit set clr buflen s).Same
      (setMsStep ekiMs uartMs bit set clr buflen s') := by
  -- which packer is chosen does not depend on the run
  unfold setMsStep
  split
  · exact h
  split
  · exact appendPacket_same hset h
  · exact appendPacket_same hclr h

theorem setMs_determined (ekiMs uartMs tid : UInt32) (buflen : Int) :
    Determined fun m =>
      ((setMs ekiMs uartMs tid buflen m).plen, (setMs ekiMs uartMs tid buflen m).buf) := by
  intro m m'
  have hstart : MsBuf.Same { plen := 0, tid := tid, buf := m } { plen := 0, tid := tid, buf := m' } :=
    ⟨rfl, rfl, Int.le_refl 0, fun i hi => absurd hi (by simp only; omega)⟩
  have hsame : (setMs ekiMs uartMs tid buflen m).Same (setMs ekiMs uartMs tid buflen m') :=
    setMsStep_same (fun _ _ => packWith_param_determined) (fun _ _ => packWith_param_determined)
      (setMsStep_same (fun _ _ => packWith_param_determined) (fun _ _ => packWith_param_determined)
        hstart)
  refine ⟨hsame.plen, slice_congr fun i _ hi => ?_⟩
  exact hsame.bytes i (by simp only at hi; omega)

/-! ## All packers -/

/-- The packer assigns every byte it returns. -/
def PackCall.Complete (buflen : Int) : PackCall → Prop
  | .hflow _ _ _ => buflen < 36
  | _ => True

theorem PackCall.determined_iff (c : PackCall) (buflen : Int) :
    (Determined fun m => c.pack buflen m) ↔ c.Complete buflen := by
  cases c with
  | hflow tid chflow flowrep => exact vcPackHflow_determined_iff
  | xmit tid datalen data => exact iff_true_intro vcPackXmit_determined
  | setlctl tid pair dbit sbit => exact iff_true_intro vcPackSetlctl_determined
  | purge tid pflags => exact iff_true_intro (packWith_word_determined rfl)
  | sbaud tid baud => exact iff_true_intro (packWith_word_determined rfl)
  | setwmask tid mask => exact iff_true_intro (packWith_word_determined rfl)
  | «open» | close | qfsize | getwmask | param => exact iff_true_intro packWith_param_determined

/-- **The wire**: a packer's bytes are determined by its arguments exactly when it
is not `vc_pack_hflow` with room for its packet; `_set_ms` is always determined. -/
theorem wire_determined (c : PackCall) (ekiMs uartMs tid : UInt32) (buflen : Int) :
    ((Determined fun m => c.pack buflen m) ↔ c.Complete buflen) ∧
    Determined fun m =>
      ((setMs ekiMs uartMs tid buflen m).plen, (setMs ekiMs uartMs tid buflen m).buf) :=
  ⟨PackCall.determined_iff c buflen, setMs_determined ekiMs uartMs tid buflen⟩

/-- The SET_HANDFLOW packet for no flow control, as `vc_common_ioctl` packs it. -/
def hflowNone : PackCall := .hflow 1 0x01000000 0x40000080

/-- **The leak**: packed into a buffer of zeros and into one of ones, its last four
bytes differ. -/
theorem hflow_leaks :
    (hflowNone.pack 1024 fun _ => 0).1 = 36 ∧
      (hflowNone.pack 1024 fun _ => 0).2.slice 32 4 = [0, 0, 0, 0] ∧
      (hflowNone.pack 1024 fun _ => 255).2.slice 32 4 = [255, 255, 255, 255] ∧
      ¬ Determined fun m => hflowNone.pack 1024 m := by
  refine ⟨by decide, by decide, by decide, fun h => ?_⟩
  have hbuf : (1024 : Int) < 36 := vcPackHflow_determined_iff.mp h
  omega

end AdvVcom
