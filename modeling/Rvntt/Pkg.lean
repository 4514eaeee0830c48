/-!
The shared types of the pipeline, after `rv32i_pkg`. An enumeration is an
inductive type whose first constructor is the member at encoding zero, so a
whole-struct clear is the record of first constructors.
-/

set_option autoImplicit false

namespace Rvntt

abbrev Word := BitVec 32

inductive AluOp where
  | add | sub | sll | slt | sltu | xor | srl | sra | or | and | passB
  deriving DecidableEq, Repr

inductive ImmFmt where
  | none | i | s | b | u | j | z
  deriving DecidableEq, Repr

inductive AluSrcA where
  | rs1 | pc | zero
  deriving DecidableEq, Repr

inductive AluSrcB where
  | rs2 | imm
  deriving DecidableEq, Repr

inductive ResultSel where
  | alu | mem | pc4 | csr
  deriving DecidableEq, Repr

/-- Where an EX operand comes from; `mem` is the younger producer and wins. -/
inductive FwdSel where
  | reg | mem | wb
  deriving DecidableEq, Repr

/-- One member per operation, not per encoding. -/
inductive BmOp where
  | none
  | sh1add | sh2add | sh3add
  | andn | orn | xnor
  | clz | ctz | cpop
  | min | minu | max | maxu
  | sextb | sexth | zexth
  | orcb | rev8
  | rol | ror
  | bset | bclr | binv | bext
  | pack | packh | brev8 | zip | unzip
  | czeqz | cznez
  deriving DecidableEq, Repr

/-! Opcodes. -/
def opcLoad : BitVec 7 := 0x03
def opcMiscMem : BitVec 7 := 0x0F
def opcOpImm : BitVec 7 := 0x13
def opcAuipc : BitVec 7 := 0x17
def opcStore : BitVec 7 := 0x23
def opcOp : BitVec 7 := 0x33
def opcLui : BitVec 7 := 0x37
def opcBranch : BitVec 7 := 0x63
def opcJalr : BitVec 7 := 0x67
def opcJal : BitVec 7 := 0x6F
def opcSystem : BitVec 7 := 0x73

/-! Load and store widths, `funct3` verbatim. -/
def f3Lb : BitVec 3 := 0
def f3Lh : BitVec 3 := 1
def f3Lw : BitVec 3 := 2
def f3Lbu : BitVec 3 := 4
def f3Lhu : BitVec 3 := 5

/-! `funct7` values. -/
def f7Base : BitVec 7 := 0b0000000
def f7Alt : BitVec 7 := 0b0100000
def f7Muldiv : BitVec 7 := 0b0000001
def f7ZbaShadd : BitVec 7 := 0b0010000
def f7ZbbMinmax : BitVec 7 := 0b0000101
def f7ZbbRot : BitVec 7 := 0b0110000
def f7ZbkbPack : BitVec 7 := 0b0000100
def f7ZbsBset : BitVec 7 := 0b0010100
def f7ZbsBclr : BitVec 7 := 0b0100100
def f7ZbsBinv : BitVec 7 := 0b0110100
def f7Zicond : BitVec 7 := 0b0000111

/-! The `rs2` field of the OP-IMM unary group. -/
def rs2Clz : BitVec 5 := 0b00000
def rs2Ctz : BitVec 5 := 0b00001
def rs2Cpop : BitVec 5 := 0b00010
def rs2Sextb : BitVec 5 := 0b00100
def rs2Sexth : BitVec 5 := 0b00101
def rs2Orcb : BitVec 5 := 0b00111
def rs2Rev8 : BitVec 5 := 0b11000
def rs2Brev8 : BitVec 5 := 0b00111
def rs2Zipunz : BitVec 5 := 0b01111

/-! SYSTEM `funct12`. -/
def f12Ecall : BitVec 12 := 0x000
def f12Ebreak : BitVec 12 := 0x001
def f12Mret : BitVec 12 := 0x302
def f12Wfi : BitVec 12 := 0x105

/-! EX occupancy of the multi-cycle unit. -/
def muldivMulCycles : Nat := 2
def muldivDivCycles : Nat := 34

/-! Event numbers; bit `n-1` of the event bus is event `n`. -/
def hpmEvNone : BitVec 4 := 0
def hpmEvLoaduse : BitVec 4 := 1
def hpmEvExstall : BitVec 4 := 2
def hpmEvRedirect : BitVec 4 := 3
def hpmEvMispredict : BitVec 4 := 4
def hpmEvXferTaken : BitVec 4 := 6
def hpmEvMax : BitVec 4 := hpmEvXferTaken

/-! The predictor's classification of a transfer. -/
def bpBranch : BitVec 2 := 0
def bpJump : BitVec 2 := 1
def bpCall : BitVec 2 := 2
def bpRet : BitVec 2 := 3

/-- The decoder's output bundle. `usesRs1` and `usesRs2` are separate from the
register fields: a field the instruction does not read never interlocks. -/
structure Ctrl where
  regWrite : Bool := false
  memRead : Bool := false
  memWrite : Bool := false
  memOp : BitVec 3 := 0
  branch : Bool := false
  jump : Bool := false
  jalr : Bool := false
  aluOp : AluOp := .add
  aluSrcA : AluSrcA := .rs1
  aluSrcB : AluSrcB := .rs2
  resultSel : ResultSel := .alu
  immFmt : ImmFmt := .none
  usesRs1 : Bool := false
  usesRs2 : Bool := false
  isEcall : Bool := false
  isEbreak : Bool := false
  isMret : Bool := false
  isCsr : Bool := false
  isMuldiv : Bool := false
  muldivOp : BitVec 3 := 0
  isBitmanip : Bool := false
  bmOp : BmOp := .none
  isIllegal : Bool := false
  deriving DecidableEq, Repr

def Ctrl.illegal : Ctrl := {isIllegal := true}

structure Pred where
  taken : Bool := false
  target : Word := 0
  hit : Bool := false
  deriving DecidableEq, Repr

structure IfId where
  valid : Bool := false
  pc : Word := 0
  insn : Word := 0
  predTaken : Bool := false
  predTarget : Word := 0
  predHit : Bool := false
  deriving DecidableEq, Repr

structure IdEx where
  valid : Bool := false
  pc : Word := 0
  insn : Word := 0
  ctrl : Ctrl := {}
  imm : Word := 0
  rs1Addr : BitVec 5 := 0
  rs2Addr : BitVec 5 := 0
  rdAddr : BitVec 5 := 0
  rs1Data : Word := 0
  rs2Data : Word := 0
  predTaken : Bool := false
  predTarget : Word := 0
  predHit : Bool := false
  fwdA : FwdSel := .reg
  fwdB : FwdSel := .reg
  deriving DecidableEq, Repr

structure ExMem where
  valid : Bool := false
  pc : Word := 0
  insn : Word := 0
  regWrite : Bool := false
  memRead : Bool := false
  memWrite : Bool := false
  memOp : BitVec 3 := 0
  resultSel : ResultSel := .alu
  rdAddr : BitVec 5 := 0
  exResult : Word := 0
  storeData : Word := 0
  pcPlus4 : Word := 0
  deriving DecidableEq, Repr

structure MemWb where
  valid : Bool := false
  pc : Word := 0
  insn : Word := 0
  regWrite : Bool := false
  rdAddr : BitVec 5 := 0
  wbData : Word := 0
  deriving DecidableEq, Repr

theorem ite_of {α : Type} {c : Prop} [Decidable c] (P : α → Prop) {a b : α} (ha : c → P a)
    (hb : ¬c → P b) : P (if c then a else b) := by
  split
  · exact ha ‹_›
  · exact hb ‹_›

end Rvntt
