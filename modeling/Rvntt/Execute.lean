import Rvntt.Csr
set_option autoImplicit false

/-!
The EX stage of `rvntt_core` as functions of what it reads in one cycle: the
ID/EX register, the two forwarded operands, the CSR file and the entropy word.
The MEM stage's load alignment is here too.
-/

namespace Rvntt

structure Ex where
  q : IdEx
  rs1Fwd : Word
  rs2Fwd : Word
  csr : Csr.State
  seedRdata : Word

namespace Ex

def pcPlus4 (x : Ex) : Word := x.q.pc+4

def aluA (x : Ex) : Word :=
  match x.q.ctrl.aluSrcA with
  | .rs1 => x.rs1Fwd
  | .pc => x.q.pc
  | .zero => 0

def aluB (x : Ex) : Word :=
  match x.q.ctrl.aluSrcB with
  | .imm => x.q.imm
  | .rs2 => x.rs2Fwd

def aluY (x : Ex) : Word := alu x.q.ctrl.aluOp x.aluA x.aluB
def bmResult (x : Ex) : Word := bitmanip x.q.ctrl.bmOp x.aluA x.aluB

/-- The dedicated address adder: a data address is always `rs1 + imm`. -/
def memAddr (x : Ex) : Word := x.rs1Fwd+x.q.imm

/-! ### Control transfer -/

def takesBranch (x : Ex) : Bool := branchTaken (funct3 x.q.insn) x.rs1Fwd x.rs2Fwd

def ctrlXfer (x : Ex) : Bool :=
  x.q.valid && ((x.q.ctrl.branch && x.takesBranch) || x.q.ctrl.jump)

def pcTarget (x : Ex) : Word := x.q.pc+x.q.imm

/-- JALR clears bit 0 and nothing else. -/
def jumpTarget (x : Ex) : Word :=
  if x.q.ctrl.jalr then x.memAddr.extractLsb' 1 31 ++ (0 : BitVec 1) else x.pcTarget

def isLink (r : BitVec 5) : Bool := r == 1 || r == 5

def bpKind (x : Ex) : BitVec 2 :=
  if x.q.ctrl.branch then bpBranch
  else if x.q.ctrl.jalr && isLink x.q.rs1Addr && !isLink x.q.rdAddr then bpRet
  else if isLink x.q.rdAddr then bpCall
  else bpJump

/-- Direction and, if taken, address must both agree. -/
def mispredict (x : Ex) : Bool :=
  x.q.valid && (x.q.predTaken != x.ctrlXfer ||
    (x.ctrlXfer && x.q.predTarget != x.jumpTarget))

/-! ### Zicsr access -/

def csrAddr (x : Ex) : Csr.Addr := x.q.insn.extractLsb' 20 12
def csrOp (x : Ex) : BitVec 2 := x.q.insn.extractLsb' 12 2
def csrImm (x : Ex) : Bool := x.q.insn.getLsbD 14
def csrSrc (x : Ex) : Word := if x.csrImm then x.q.imm else x.rs1Fwd

def csrSrcNz (x : Ex) : Bool :=
  if x.csrImm then x.q.imm.extractLsb' 0 5 != 0 else x.q.rs1Addr != 0

/-- CSRRS and CSRRC with a zero source do not write; CSRRW always does. -/
def csrWen (x : Ex) : Bool :=
  x.q.valid && x.q.ctrl.isCsr && (x.csrOp == 0b01 || x.csrSrcNz)

def csrRdata (x : Ex) : Word := Csr.rdata x.csr x.seedRdata x.csrAddr
def csrIllegal (x : Ex) : Bool := Csr.illegal x.csrAddr x.csrWen

def csrWdata (x : Ex) : Word :=
  if x.csrOp = 0b10 then x.csrRdata ||| x.csrSrc
  else if x.csrOp = 0b11 then x.csrRdata &&& ~~~x.csrSrc
  else x.csrSrc

/-! ### Traps -/

def addrMisaligned (x : Ex) : Bool :=
  if x.q.ctrl.memOp = f3Lh ∨ x.q.ctrl.memOp = f3Lhu then x.memAddr.getLsbD 0
  else if x.q.ctrl.memOp = f3Lw then x.memAddr.extractLsb' 0 2 != 0
  else false

def targetMisaligned (x : Ex) : Bool := x.ctrlXfer && x.jumpTarget.getLsbD 1

def mret (x : Ex) : Bool := x.q.valid && x.q.ctrl.isMret

/-- `ex_trap` with its cause and value, in priority order. -/
def trapInfo (x : Ex) : Option (BitVec 5 × Word) :=
  if x.q.valid then
    if x.q.ctrl.isIllegal || (x.q.ctrl.isCsr && x.csrIllegal) then some (2,x.q.insn)
    else if x.q.ctrl.isEcall then some (11,0)
    else if x.q.ctrl.isEbreak then some (3,x.q.pc)
    else if x.targetMisaligned then some (0,x.jumpTarget)
    else if x.q.ctrl.memRead && x.addrMisaligned then some (4,x.memAddr)
    else if x.q.ctrl.memWrite && x.addrMisaligned then some (6,x.memAddr)
    else none
  else none

def trap (x : Ex) : Bool := x.trapInfo.isSome
def trapCause (x : Ex) : BitVec 5 := (x.trapInfo.getD (0,0)).1
def trapVal (x : Ex) : Word := (x.trapInfo.getD (0,0)).2

/-- The architectural next pc, whether or not the front end is redirected. -/
def redirectTarget (x : Ex) : Word :=
  if x.trap then Csr.mtvecO x.csr.toArch
  else if x.mret then Csr.mepcO x.csr.toArch
  else if x.ctrlXfer then x.jumpTarget
  else x.pcPlus4

/-! ### Data-memory request -/

/-- A store that traps asserts no byte enable. -/
def storing (x : Ex) : Bool := x.q.valid && x.q.ctrl.memWrite && !x.trap

def dmemWdata (x : Ex) : Word :=
  if x.storing then
    if x.q.ctrl.memOp = f3Lb then
      let b := x.rs2Fwd.extractLsb' 0 8
      b ++ b ++ b ++ b
    else if x.q.ctrl.memOp = f3Lh then
      let h := x.rs2Fwd.extractLsb' 0 16
      h ++ h
    else x.rs2Fwd
  else x.rs2Fwd

def dmemBe (x : Ex) : BitVec 4 :=
  if x.storing then
    if x.q.ctrl.memOp = f3Lb then (0b0001 : BitVec 4) <<< x.memAddr.extractLsb' 0 2
    else if x.q.ctrl.memOp = f3Lh then if x.memAddr.getLsbD 1 then 0b1100 else 0b0011
    else if x.q.ctrl.memOp = f3Lw then 0b1111
    else 0
  else 0

/-! ### Result -/

def result (x : Ex) (mdResult : Word) : Word :=
  if x.q.ctrl.isMuldiv then mdResult
  else if x.q.ctrl.isBitmanip then x.bmResult
  else if x.q.ctrl.isCsr then x.csrRdata
  else x.aluY

def csrIn (x : Ex) (bump : Bool) (hpmEvent : BitVec 6) : Csr.In where
  addr := x.csrAddr
  wen := x.csrWen
  wdata := x.csrWdata
  instretBump := bump
  hpmEvent := hpmEvent
  trapEn := x.trap
  trapPc := x.q.pc
  trapCause := x.trapCause
  trapVal := x.trapVal
  mretEn := x.mret

/-- What EX/MEM latches when the instruction is neither squashed nor held. -/
def latch (x : Ex) (mdResult : Word) : ExMem where
  valid := x.q.valid
  pc := x.q.pc
  insn := x.q.insn
  regWrite := x.q.ctrl.regWrite
  memRead := x.q.ctrl.memRead
  memWrite := x.q.ctrl.memWrite
  memOp := x.q.ctrl.memOp
  resultSel := x.q.ctrl.resultSel
  rdAddr := x.q.rdAddr
  exResult := x.result mdResult
  storeData := x.rs2Fwd
  pcPlus4 := x.pcPlus4

end Ex

/-! ### MEM -/

namespace ExMem

def byteOff (q : ExMem) : BitVec 2 := q.exResult.extractLsb' 0 2

def loadData (q : ExMem) (dmemRdata : Word) : Word :=
  let byte := dmemRdata.extractLsb' (8*q.byteOff.toNat) 8
  let half := if q.byteOff.getLsbD 1 then dmemRdata.extractLsb' 16 16
    else dmemRdata.extractLsb' 0 16
  if q.memOp = f3Lb then byte.signExtend 32
  else if q.memOp = f3Lh then half.signExtend 32
  else if q.memOp = f3Lw then dmemRdata
  else if q.memOp = f3Lbu then byte.setWidth 32
  else if q.memOp = f3Lhu then half.setWidth 32
  else dmemRdata

def result (q : ExMem) (dmemRdata : Word) : Word :=
  match q.resultSel with
  | .alu => q.exResult
  | .mem => q.loadData dmemRdata
  | .pc4 => q.pcPlus4
  | .csr => q.exResult

/-- The forwardable value: only sources that are already registered. -/
def fwdData (q : ExMem) : Word :=
  match q.resultSel with
  | .pc4 => q.pcPlus4
  | .alu => q.exResult
  | .csr => q.exResult
  | .mem => 0

end ExMem

end Rvntt
