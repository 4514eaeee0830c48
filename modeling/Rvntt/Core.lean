import Mathlib.Logic.Function.Basic
import Rvntt.Decode
import Rvntt.Execute
import Rvntt.Muldiv
import Rvntt.Seed
import Rvntt.Lib.Clocked
set_option autoImplicit false

/-!
`rvntt_core`: the five-stage pipeline. The predictor's three outputs are inputs
here, one choice per cycle; `rvntt_bpred` is one way of making them.
-/

namespace Rvntt

/-! ### `rvntt_forward` and `rvntt_hazard` -/

structure Producers where
  memValid : Bool
  memRegWrite : Bool
  memMemRead : Bool
  memRdAddr : BitVec 5
  wbValid : Bool
  wbRegWrite : Bool
  wbRdAddr : BitVec 5

/-- A load in MEM supplies nothing: the interlock covers it. -/
def Producers.memSupplies (p : Producers) : Bool :=
  p.memValid && p.memRegWrite && !p.memMemRead && p.memRdAddr != 0

def Producers.wbSupplies (p : Producers) : Bool :=
  p.wbValid && p.wbRegWrite && p.wbRdAddr != 0

/-- One operand of `rvntt_forward`. -/
def forward (p : Producers) (uses : Bool) (addr : BitVec 5) : FwdSel :=
  if uses then
    if p.memSupplies && p.memRdAddr == addr then .mem
    else if p.wbSupplies && p.wbRdAddr == addr then .wb
    else .reg
  else .reg

/-- One step of the decay under a multi-cycle stall. -/
def fwdDecay (s : FwdSel) : FwdSel := if s = .mem then .wb else .reg

/-- `rvntt_hazard`, the load-use interlock. -/
def hazard (idValid idUsesRs1 idUsesRs2 : Bool) (idRs1Addr idRs2Addr : BitVec 5)
    (exValid exMemRead : Bool) (exRdAddr : BitVec 5) : Bool :=
  idValid && (exValid && exMemRead && exRdAddr != 0) &&
    ((idUsesRs1 && idRs1Addr == exRdAddr) || (idUsesRs2 && idRs2Addr == exRdAddr))

namespace Core

def seedParams : Seed.Params := {}

structure State where
  pcQ : Word
  insnHoldQ : Word := 0
  insnHeldQ : Bool := false
  ifIdQ : IfId
  idExQ : IdEx := {}
  exMemQ : ExMem := {}
  memWbQ : MemWb := {}
  regs : BitVec 5 → Word := fun _ => 0
  muldiv : Muldiv.State := {}
  csr : Csr.State := {}
  hpmEventQ : BitVec 6 := 0
  seed : Seed.State seedParams := {}

structure In where
  imemRdata : Word
  dmemRdata : Word
  stubBit : Bool
  pred : Pred

def reset (resetPc : Word) : State where
  pcQ := resetPc
  ifIdQ := {pc := resetPc}

/-! ### WB and the register file -/

def wbWe (s : State) : Bool := s.memWbQ.valid && s.memWbQ.regWrite && s.memWbQ.rdAddr != 0

def regsNext (s : State) : BitVec 5 → Word :=
  if wbWe s then Function.update s.regs s.memWbQ.rdAddr s.memWbQ.wbData else s.regs

/-- A read port, with the write-through of a same-cycle write. -/
def readPort (s : State) (ra : BitVec 5) : Word :=
  if wbWe s && s.memWbQ.rdAddr == ra then s.memWbQ.wbData else s.regs ra

/-! ### EX -/

def operand (s : State) (sel : FwdSel) (data : Word) : Word :=
  match sel with
  | .mem => s.exMemQ.fwdData
  | .wb => s.memWbQ.wbData
  | .reg => data

def exRs1Fwd (s : State) : Word := operand s s.idExQ.fwdA s.idExQ.rs1Data
def exRs2Fwd (s : State) : Word := operand s s.idExQ.fwdB s.idExQ.rs2Data

def ex (s : State) : Ex where
  q := s.idExQ
  rs1Fwd := exRs1Fwd s
  rs2Fwd := exRs2Fwd s
  csr := s.csr
  seedRdata := Seed.rdata s.seed

def exMdReq (s : State) : Bool := s.idExQ.valid && s.idExQ.ctrl.isMuldiv

def muldivIn (s : State) : Muldiv.In where
  req := exMdReq s
  op := s.idExQ.ctrl.muldivOp
  a := exRs1Fwd s
  b := exRs2Fwd s

def exStall (s : State) : Bool := exMdReq s && !Muldiv.done s.muldiv (muldivIn s)

def exTrap (s : State) : Bool := (ex s).trap
def exMispredict (s : State) : Bool := (ex s).mispredict
def exRedirectTarget (s : State) : Word := (ex s).redirectTarget

/-- Gated on `!ex_stall`: a redirect never flushes around an unfinished instruction. -/
def exRedirect (s : State) : Bool :=
  !exStall s && (exTrap s || (ex s).mret || exMispredict s)

/-- A trapping instruction teaches the predictor nothing. -/
def exBpUpd (s : State) : Bool :=
  s.idExQ.valid && !exStall s && !exTrap s && (s.idExQ.ctrl.branch || s.idExQ.ctrl.jump)

/-- The instruction in EX finishes there this cycle, retired or trapped. -/
def exDone (s : State) : Bool := s.idExQ.valid && !exStall s

/-! ### ID -/

def ifId (s : State) (i : In) : IfId :=
  {s.ifIdQ with insn := if s.insnHeldQ then s.insnHoldQ else i.imemRdata}

def idCtrl (s : State) (i : In) : Ctrl := decode (ifId s i).insn

def idStall (s : State) (i : In) : Bool :=
  hazard s.ifIdQ.valid (idCtrl s i).usesRs1 (idCtrl s i).usesRs2
    (rs1Field (ifId s i).insn) (rs2Field (ifId s i).insn)
    s.idExQ.valid s.idExQ.ctrl.memRead s.idExQ.rdAddr

def frontStall (s : State) (i : In) : Bool := idStall s i || exStall s

/-- The decision for the instruction in ID, against the producers where they will
be when it is used. -/
def idProducers (s : State) : Producers where
  memValid := s.idExQ.valid
  memRegWrite := s.idExQ.ctrl.regWrite
  memMemRead := s.idExQ.ctrl.memRead
  memRdAddr := s.idExQ.rdAddr
  wbValid := s.exMemQ.valid
  wbRegWrite := s.exMemQ.regWrite
  wbRdAddr := s.exMemQ.rdAddr

def exProducers (s : State) : Producers where
  memValid := s.exMemQ.valid
  memRegWrite := s.exMemQ.regWrite
  memMemRead := s.exMemQ.memRead
  memRdAddr := s.exMemQ.rdAddr
  wbValid := s.memWbQ.valid
  wbRegWrite := s.memWbQ.regWrite
  wbRdAddr := s.memWbQ.rdAddr

def idIssue (s : State) (i : In) : IdEx :=
  let insn := (ifId s i).insn
  let c := idCtrl s i
  { valid := s.ifIdQ.valid
    pc := s.ifIdQ.pc
    insn := insn
    ctrl := c
    imm := immgen insn c.immFmt
    rs1Addr := rs1Field insn
    rs2Addr := rs2Field insn
    rdAddr := rdField insn
    rs1Data := readPort s (rs1Field insn)
    rs2Data := readPort s (rs2Field insn)
    predTaken := s.ifIdQ.predTaken
    predTarget := s.ifIdQ.predTarget
    predHit := s.ifIdQ.predHit
    fwdA := forward (idProducers s) c.usesRs1 (rs1Field insn)
    fwdB := forward (idProducers s) c.usesRs2 (rs2Field insn) }

/-! ### Next state -/

/-- The redirect outranks the prediction: EX has seen the instruction, IF only
its address. -/
def pcNext (s : State) (i : In) : Word :=
  if exRedirect s then exRedirectTarget s
  else if frontStall s i then s.pcQ
  else if i.pred.taken then i.pred.target
  else s.pcQ+4

def ifIdNext (s : State) (i : In) : IfId :=
  if exRedirect s then {pc := s.pcQ}
  else if !frontStall s i then
    { valid := true
      pc := s.pcQ
      predTaken := i.pred.taken
      predTarget := i.pred.target
      predHit := i.pred.hit }
  else s.ifIdQ

def idExNext (s : State) (i : In) : IdEx :=
  if exStall s then
    {s.idExQ with fwdA := fwdDecay s.idExQ.fwdA, fwdB := fwdDecay s.idExQ.fwdB}
  else if idStall s i || exRedirect s then {}
  else idIssue s i

def exMemNext (s : State) : ExMem :=
  if exTrap s || exStall s then {} else (ex s).latch (Muldiv.result s.muldiv)

def memWbNext (s : State) (i : In) : MemWb where
  valid := s.exMemQ.valid
  pc := s.exMemQ.pc
  insn := s.exMemQ.insn
  regWrite := s.exMemQ.regWrite
  rdAddr := s.exMemQ.rdAddr
  wbData := s.exMemQ.result i.dmemRdata

/-! The event bus, bit `n-1` for event `n`. -/

def evLoaduse (s : State) (i : In) : Bool := idStall s i && !exStall s
def evMispredict (s : State) : Bool := !exStall s && exMispredict s
def evBtbHit (s : State) : Bool := exBpUpd s && s.idExQ.predHit
def evXferTaken (s : State) : Bool := exBpUpd s && (ex s).ctrlXfer

def hpmEventC (s : State) (i : In) : BitVec 6 :=
  BitVec.ofBool (evXferTaken s) ++ BitVec.ofBool (evBtbHit s) ++
    BitVec.ofBool (evMispredict s) ++ BitVec.ofBool (exRedirect s) ++
    BitVec.ofBool (exStall s) ++ BitVec.ofBool (evLoaduse s i)

def instretBump (s : State) : Bool := s.idExQ.valid && !exTrap s && !exStall s

def seedRdEn (s : State) : Bool := Csr.seedRdEn (ex s).csrAddr (ex s).csrWen

def next (s : State) (i : In) : State where
  pcQ := pcNext s i
  insnHoldQ := (ifId s i).insn
  insnHeldQ := frontStall s i && !exRedirect s
  ifIdQ := ifIdNext s i
  idExQ := idExNext s i
  exMemQ := exMemNext s
  memWbQ := memWbNext s i
  regs := regsNext s
  muldiv := Muldiv.next s.muldiv (muldivIn s)
  csr := Csr.next s.csr ((ex s).csrIn (instretBump s) s.hpmEventQ)
  hpmEventQ := hpmEventC s i
  seed := Seed.next s.seed ⟨i.stubBit,seedRdEn s && !exTrap s⟩

def machine (resetPc : Word) : Clocked.Machine State In := ⟨reset resetPc,next⟩

abbrev run (resetPc : Word) (x : Nat → In) (t : Nat) : State := (machine resetPc).run x t

/-! ### Ports -/

def imemAddr (s : State) : Word := s.pcQ
def dmemAddr (s : State) : Word := (ex s).memAddr

structure Commit where
  pc : Word
  insn : Word
  /-- The register written and its value; `none` when `commit_reg_write` is low. -/
  write : Option (BitVec 5 × Word)
  deriving DecidableEq, Repr

def commit (s : State) : Option Commit :=
  if s.memWbQ.valid then
    some ⟨s.memWbQ.pc,s.memWbQ.insn,
      if wbWe s then some (s.memWbQ.rdAddr,s.memWbQ.wbData) else none⟩
  else none

end Core

end Rvntt
