import Mathlib.Data.Nat.Log
import Rvntt.Ram
import Rvntt.Lib.Bits
set_option autoImplicit false

/-!
`rvntt_mmio` with its UART and GPIO next to `rvntt_ram` on the core's data port. The
port has no handshake: it presents an address in every cycle, and a cycle without a
byte enable may or may not be a load.
-/

namespace Rvntt

structure UartParams where
  clkHz : Nat := 75000000
  baud : Nat := 115200

def UartParams.divisor (p : UartParams) : Nat := p.clkHz/p.baud

/-! ### `rvntt_uart_tx` -/

namespace UartTx

def divW (p : UartParams) : Nat := Nat.clog 2 p.divisor
def bitCount : Nat := 10

structure State (p : UartParams) where
  divQ : BitVec (divW p) := 0
  bitQ : BitVec 4 := 0
  shiftQ : BitVec 10 := 0x3FF
  busyQ : Bool := false
  tx : Bool := true

variable {p : UartParams}

def ready (s : State p) : Bool := !s.busyQ
def baudTick (s : State p) : Bool := s.divQ == BitVec.ofNat (divW p) (p.divisor-1)

def next (s : State p) (data : BitVec 8) (valid : Bool) : State p :=
  if !s.busyQ then
    if valid then
      { divQ := 0
        bitQ := 0
        shiftQ := (1 : BitVec 1) ++ data ++ (0 : BitVec 1)
        busyQ := true
        tx := true }
    else {s with tx := true, divQ := 0}
  else if baudTick s then
    { divQ := 0
      bitQ := s.bitQ+1
      shiftQ := (1 : BitVec 1) ++ s.shiftQ.extractLsb' 1 9
      busyQ := s.bitQ != BitVec.ofNat 4 (bitCount-1)
      tx := s.shiftQ.getLsbD 0 }
  else {s with divQ := s.divQ+1}

end UartTx

/-! ### `rvntt_uart_rx` -/

namespace UartRx

def divW (p : UartParams) : Nat := Nat.clog 2 (p.divisor+1)

inductive Phase where
  | idle | start | data | stop
  deriving DecidableEq, Repr

structure State (p : UartParams) where
  syncQ : BitVec 2 := 0b11
  phase : Phase := .idle
  divQ : BitVec (divW p) := 0
  bitQ : BitVec 3 := 0
  shQ : BitVec 8 := 0
  data : BitVec 8 := 0
  valid : Bool := false
  overrun : Bool := false

variable {p : UartParams}

/-- Set beats clear, and a byte that finds the last one unread is dropped. -/
def next (s : State p) (rx ack overrunClr : Bool) : State p :=
  let rxS := s.syncQ.getLsbD 1
  let t : State p :=
    {s with
      syncQ := s.syncQ.extractLsb' 0 1 ++ BitVec.ofBool rx
      valid := if ack then false else s.valid
      overrun := if overrunClr then false else s.overrun}
  match s.phase with
  | .idle =>
    if !rxS then {t with divQ := BitVec.ofNat _ (p.divisor/2), phase := .start} else t
  | .start =>
    if s.divQ = 0 then
      if !rxS then {t with divQ := BitVec.ofNat _ (p.divisor-1), bitQ := 0, phase := .data}
      else {t with phase := .idle}
    else {t with divQ := s.divQ-1}
  | .data =>
    if s.divQ = 0 then
      let u : State p :=
        {t with
          shQ := BitVec.ofBool rxS ++ s.shQ.extractLsb' 1 7
          divQ := BitVec.ofNat _ (p.divisor-1)}
      if s.bitQ = 7 then {u with phase := .stop} else {u with bitQ := s.bitQ+1}
    else {t with divQ := s.divQ-1}
  | .stop =>
    if s.divQ = 0 then
      if rxS then
        if s.valid && !ack then {t with phase := .idle, overrun := true}
        else {t with phase := .idle, data := s.shQ, valid := true}
      else {t with phase := .idle}
    else {t with divQ := s.divQ-1}

end UartRx

/-! ### `rvntt_mmio` -/

namespace Mmio

/-- The two regions are told apart by their top nibbles. -/
structure Params extends UartParams where
  ramBase : Word := 0x80000000
  mmioBase : Word := 0x40000000
  apart : ramBase.extractLsb' 28 4 ≠ mmioBase.extractLsb' 28 4 := by decide

structure Devices (p : Params) where
  tx : UartTx.State p.toUartParams := {}
  rx : UartRx.State p.toUartParams := {}
  gpioOut : BitVec 4 := 0

structure State (p : Params) extends Devices p where
  mmioRdataQ : Word := 0
  selRamQ : Bool := false

structure Pins where
  uartRx : Bool := true
  sw : BitVec 4 := 0
  btn : BitVec 4 := 0

structure Access where
  addr : Word
  wdata : Word
  be : BitVec 4

variable {p : Params}

def isRam (p : Params) (a : Access) : Bool :=
  a.addr.extractLsb' 28 4 == p.ramBase.extractLsb' 28 4
def isMmio (p : Params) (a : Access) : Bool :=
  a.addr.extractLsb' 28 4 == p.mmioBase.extractLsb' 28 4

def we (p : Params) (a : Access) : Bool := isMmio p a && a.be != 0
def sel (a : Access) : BitVec 4 := a.addr.extractLsb' 2 4

def rUartTx : BitVec 4 := 0
def rUartStat : BitVec 4 := 1
def rUartRx : BitVec 4 := 2
def rGpioOut : BitVec 4 := 3
def rGpioIn : BitVec 4 := 4

/-- The byte enables that reach the array, which aliases. -/
def ramBe (p : Params) (a : Access) : BitVec 4 := if isRam p a then a.be else 0

def mmioRdataC (d : Devices p) (pins : Pins) (a : Access) : Word :=
  if sel a = rUartStat then
    (0 : BitVec 29) ++ BitVec.ofBool d.rx.overrun ++ BitVec.ofBool d.rx.valid ++
      BitVec.ofBool (UartTx.ready d.tx)
  else if sel a = rUartRx then (0 : BitVec 24) ++ d.rx.data
  else if sel a = rGpioOut then (0 : BitVec 28) ++ d.gpioOut
  else if sel a = rGpioIn then (0 : BitVec 24) ++ pins.btn ++ pins.sw
  else 0

def devicesNext (d : Devices p) (pins : Pins) (a : Access) : Devices p where
  tx := UartTx.next d.tx (a.wdata.extractLsb' 0 8) (we p a && sel a == rUartTx)
  rx := UartRx.next d.rx pins.uartRx (we p a && sel a == rUartRx)
    (we p a && sel a == rUartStat && a.wdata.getLsbD 2)
  gpioOut := if we p a && sel a == rGpioOut then a.wdata.extractLsb' 0 4 else d.gpioOut

/-- The data and the choice between the two memories are registered together. -/
def next (s : State p) (pins : Pins) (a : Access) : State p where
  toDevices := devicesNext s.toDevices pins a
  mmioRdataQ := mmioRdataC s.toDevices pins a
  selRamQ := isRam p a

end Mmio

/-! ### The data port of the SoC -/

namespace Bus

open Mmio (Params Devices Pins Access)

structure State (p : Params) (aw : Nat) where
  mmio : Mmio.State p := {}
  ram : Ram aw

structure In where
  access : Access
  pins : Pins
  fetch : Word

variable {p : Params} {aw : Nat}

def next (s : State p aw) (i : In) : State p aw where
  mmio := Mmio.next s.mmio i.pins i.access
  ram := s.ram.next p.ramBase i.fetch i.access.addr i.access.wdata (Mmio.ramBe p i.access)

def rdata (s : State p aw) : Word :=
  if s.mmio.selRamQ then s.ram.rdataB else s.mmio.mmioRdataQ

/-- Reset does not reach the array. -/
def machine (p : Params) (ram : Ram aw) : Clocked.Machine (State p aw) In := ⟨{ram := ram},next⟩

abbrev run (p : Params) (ram : Ram aw) (x : Nat → In) (t : Nat) : State p aw :=
  (machine p ram).run x t

/-! ### The law of the port -/

inductive Register where
  | uartStat | uartRx | gpioOut | gpioIn
  deriving DecidableEq, Repr

def registerOf (word : Nat) : Option Register :=
  match word with
  | 1 => some .uartStat
  | 2 => some .uartRx
  | 3 => some .gpioOut
  | 4 => some .gpioIn
  | _ => none

def registerAt (addr : Word) : Option Register := registerOf (addr.toNat % 64/4)

def Register.value (d : Devices p) (pins : Pins) : Register → Word
  | uartStat =>
    BitVec.ofNat 32 (4*d.rx.overrun.toNat+2*d.rx.valid.toNat+(UartTx.ready d.tx).toNat)
  | uartRx => BitVec.ofNat 32 d.rx.data.toNat
  | gpioOut => BitVec.ofNat 32 d.gpioOut.toNat
  | gpioIn => BitVec.ofNat 32 (16*pins.btn.toNat+pins.sw.toNat)

def InRam (p : Params) (addr : Word) : Prop := addr.toNat/2^28 = p.ramBase.toNat/2^28
def InMmio (p : Params) (addr : Word) : Prop := addr.toNat/2^28 = p.mmioBase.toNat/2^28
def Stores (a : Access) : Prop := a.be ≠ 0

def idle (d : Devices p) (pins : Pins) : Devices p where
  tx := UartTx.next d.tx 0 false
  rx := UartRx.next d.rx pins.uartRx false false
  gpioOut := d.gpioOut

/-- The address decode, for one cycle: who may change, and what is read one cycle later. -/
structure Law (s : State p aw) (i : In) : Prop where
  ram : ¬(Stores i.access ∧ InRam p i.access.addr) → (next s i).ram.mem = s.ram.mem
  devices : ¬(Stores i.access ∧ InMmio p i.access.addr) →
    (next s i).mmio.toDevices = idle s.mmio.toDevices i.pins
  ramRead : InRam p i.access.addr →
    rdata (next s i) = s.ram.mem (Ram.wordAddr p.ramBase i.access.addr)
  mmioRead : InMmio p i.access.addr → rdata (next s i) =
    ((registerAt i.access.addr).map (Register.value s.mmio.toDevices i.pins)).getD 0
  otherRead : ¬InRam p i.access.addr → ¬InMmio p i.access.addr → rdata (next s i) = 0

/-- The address is in neither region, but its low bits select a register that is not zero. -/
def Leaks (s : State p aw) (i : In) : Prop :=
  ¬InRam p i.access.addr ∧ ¬InMmio p i.access.addr ∧
    ∃ r, registerAt i.access.addr = some r ∧ r.value s.mmio.toDevices i.pins ≠ 0

theorem isRam_iff (a : Access) : Mmio.isRam p a = true ↔ InRam p a.addr := by
  have ha := a.addr.isLt
  have hb := p.ramBase.isLt
  rw [Mmio.isRam,beq_iff_eq,BitVec.toNat_eq,Bits.extract_toNat,Bits.extract_toNat,InRam]
  omega

theorem isMmio_iff (a : Access) : Mmio.isMmio p a = true ↔ InMmio p a.addr := by
  have ha := a.addr.isLt
  have hb := p.mmioBase.isLt
  rw [Mmio.isMmio,beq_iff_eq,BitVec.toNat_eq,Bits.extract_toNat,Bits.extract_toNat,InMmio]
  omega

theorem not_both {addr : Word} (hm : InMmio p addr) : ¬InRam p addr := by
  intro hr
  have hb := p.ramBase.isLt
  have hc := p.mmioBase.isLt
  refine p.apart (BitVec.eq_of_toNat_eq ?_)
  rw [Bits.extract_toNat,Bits.extract_toNat]
  rw [InRam] at hr
  rw [InMmio] at hm
  omega

theorem we_iff (a : Access) : Mmio.we p a = true ↔ Stores a ∧ InMmio p a.addr := by
  rw [Mmio.we,Bool.and_eq_true,isMmio_iff,bne_iff_ne,and_comm]
  rfl

theorem ramBe_of_not {a : Access} (h : ¬(Stores a ∧ InRam p a.addr)) : Mmio.ramBe p a = 0 := by
  rw [Mmio.ramBe]
  split
  · rename_i hr
    by_contra hs
    exact h ⟨hs,(isRam_iff a).mp hr⟩
  · rfl

theorem devices_of_not {a : Access} (h : ¬(Stores a ∧ InMmio p a.addr)) (d : Devices p)
    (pins : Pins) : Mmio.devicesNext d pins a = idle d pins := by
  have hw : Mmio.we p a = false := by
    rw [← Bool.not_eq_true,we_iff]
    exact h
  rw [Mmio.devicesNext,idle,hw]
  simp only [Bool.false_and,Bool.false_eq_true,if_false]
  congr 1

theorem sel_toNat (a : Access) : (Mmio.sel a).toNat = a.addr.toNat % 64/4 := by
  rw [Mmio.sel,Bits.extract_toNat]
  omega

theorem stat_eq (o v r : Bool) :
    (0 : BitVec 29) ++ BitVec.ofBool o ++ BitVec.ofBool v ++ BitVec.ofBool r =
      BitVec.ofNat 32 (4*o.toNat+2*v.toNat+r.toNat) := by
  cases o <;> cases v <;> cases r <;> rfl

theorem pad_eq {m n : Nat} (x : BitVec n) (h : m+n = 32) :
    ((0 : BitVec m) ++ x).cast h = BitVec.ofNat 32 x.toNat := by
  refine BitVec.eq_of_toNat_eq ?_
  rw [BitVec.toNat_cast,Bits.append_toNat,BitVec.toNat_ofNat,BitVec.ofNat_eq_ofNat,
    BitVec.toNat_ofNat,Nat.zero_mod,Nat.mul_zero,Nat.zero_add,Nat.mod_eq_of_lt]
  exact Nat.lt_of_lt_of_le x.isLt (Nat.pow_le_pow_right (by omega) (by omega))

theorem nibbles_eq (x y : BitVec 4) :
    (0 : BitVec 24) ++ x ++ y = BitVec.ofNat 32 (16*x.toNat+y.toNat) := by
  revert x y
  decide

theorem rdataC_eq (d : Devices p) (pins : Pins) (a : Access) : Mmio.mmioRdataC d pins a =
    ((registerAt a.addr).map (Register.value d pins)).getD 0 := by
  have hsel := sel_toNat a
  rw [Mmio.mmioRdataC,registerAt,← hsel]
  generalize Mmio.sel a = n
  have hn : ∀ n : BitVec 4, n = 1 ∨ n = 2 ∨ n = 3 ∨ n = 4 ∨
      ((n ≠ Mmio.rUartStat ∧ n ≠ Mmio.rUartRx ∧ n ≠ Mmio.rGpioOut ∧ n ≠ Mmio.rGpioIn) ∧
        registerOf n.toNat = none) := by decide
  rcases hn n with rfl | rfl | rfl | rfl | ⟨⟨h1,h2,h3,h4⟩,h5⟩
  · exact stat_eq _ _ _
  · exact pad_eq d.rx.data rfl
  · exact pad_eq d.gpioOut rfl
  · exact nibbles_eq pins.btn pins.sw
  · rw [h5,if_neg h1,if_neg h2,if_neg h3,if_neg h4]
    rfl

theorem rdata_next (s : State p aw) (i : In) : rdata (next s i) =
    if Mmio.isRam p i.access then s.ram.mem (Ram.wordAddr p.ramBase i.access.addr)
    else ((registerAt i.access.addr).map (Register.value s.mmio.toDevices i.pins)).getD 0 := by
  rw [← rdataC_eq]
  rfl

theorem law_step (s : State p aw) (i : In) : Law s i ↔ ¬Leaks s i := by
  have hrd := rdata_next s i
  constructor
  · rintro h ⟨hr,hm,r,ha,hne⟩
    have h0 := h.otherRead hr hm
    rw [hrd,if_neg (mt (isRam_iff _).mp hr),ha] at h0
    exact hne h0
  · intro h
    refine ⟨fun hs => ?_,fun hs => devices_of_not hs _ _,fun hr => ?_,fun hm => ?_,
      fun hr hm => ?_⟩
    · change Ram.store _ _ _ (Mmio.ramBe p i.access) = _
      rw [ramBe_of_not hs]
      exact Ram.store_none _ _ _
    · rw [hrd,if_pos ((isRam_iff _).mpr hr)]
    · rw [hrd,if_neg (mt (isRam_iff _).mp (not_both hm))]
    · rw [hrd,if_neg (mt (isRam_iff _).mp hr)]
      cases ha : registerAt i.access.addr with
      | none => rfl
      | some r =>
        by_contra hne
        exact h ⟨hr,hm,r,ha,hne⟩

/-- In every cycle of every run. -/
theorem law_iff (p : Params) (ram : Ram aw) (x : Nat → In) (t : Nat) :
    Law (run p ram x t) (x t) ↔ ¬Leaks (run p ram x t) (x t) :=
  law_step _ _

/-- A load from address 4, far from the block at `0x40000000`. -/
def strayLoad : In where
  access := ⟨4,0,0⟩
  pins := {}
  fetch := 0

/-- It reads the transmitter's ready bit. -/
theorem law_fails_strayLoad :
    ¬Law (run {} (⟨fun _ => 0,0,0⟩ : Ram 4) (fun _ => strayLoad) 0) strayLoad :=
  fun h => absurd (h.otherRead (by unfold InRam; decide) (by unfold InMmio; decide)) (by decide)

end Bus

end Rvntt
