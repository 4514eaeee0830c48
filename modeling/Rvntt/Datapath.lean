import Rvntt.Lib.Bits
import Rvntt.Pkg
set_option autoImplicit false

namespace Rvntt

/-! Instruction fields. -/

def opcode (insn : Word) : BitVec 7 := insn.extractLsb' 0 7
def funct3 (insn : Word) : BitVec 3 := insn.extractLsb' 12 3
def funct7 (insn : Word) : BitVec 7 := insn.extractLsb' 25 7
def funct12 (insn : Word) : BitVec 12 := insn.extractLsb' 20 12
def rdField (insn : Word) : BitVec 5 := insn.extractLsb' 7 5
def rs1Field (insn : Word) : BitVec 5 := insn.extractLsb' 15 5
def rs2Field (insn : Word) : BitVec 5 := insn.extractLsb' 20 5

def flag (b : Bool) : Word := if b then 1 else 0

/-- `rvntt_alu`. Shifts read the low five bits of `b` only. -/
def alu (op : AluOp) (a b : Word) : Word :=
  let shamt := b.extractLsb' 0 5
  match op with
  | .add => a + b
  | .sub => a - b
  | .sll => a <<< shamt
  | .slt => flag (a.slt b)
  | .sltu => flag (a.ult b)
  | .xor => a ^^^ b
  | .srl => a >>> shamt
  | .sra => a.sshiftRight shamt.toNat
  | .or => a ||| b
  | .and => a &&& b
  | .passB => b

/-! The last-write-wins priority encoders and the bit count of the
bit-manipulation unit. -/

def clz (a : Word) : BitVec 6 :=
  (List.range 32).foldl (fun v i => if a.getLsbD i then BitVec.ofNat 6 (31-i) else v) 32

def ctz (a : Word) : BitVec 6 :=
  (List.range 32).reverse.foldl (fun v i => if a.getLsbD i then BitVec.ofNat 6 i else v) 32

def cpop (a : Word) : BitVec 6 :=
  (List.range 32).foldl (fun v i => v + (BitVec.ofBool (a.getLsbD i)).setWidth 6) 0

def orcByte (b : BitVec 8) : BitVec 8 := if b = 0 then 0 else 0xFF

def orcb (a : Word) : Word :=
  orcByte (a.extractLsb' 24 8) ++ orcByte (a.extractLsb' 16 8) ++
    orcByte (a.extractLsb' 8 8) ++ orcByte (a.extractLsb' 0 8)

def rev8 (a : Word) : Word :=
  a.extractLsb' 0 8 ++ a.extractLsb' 8 8 ++ a.extractLsb' 16 8 ++ a.extractLsb' 24 8

def brev8 (a : Word) : Word :=
  Bits.ofFn 32 fun k => a.getLsbD (k/8*8 + (7-k%8))

def zip (a : Word) : Word :=
  Bits.ofFn 32 fun k => if k%2 = 0 then a.getLsbD (k/2) else a.getLsbD (k/2+16)

def unzip (a : Word) : Word :=
  Bits.ofFn 32 fun k => if k < 16 then a.getLsbD (2*k) else a.getLsbD (2*(k-16)+1)

/-- `rvntt_bitmanip`. The rotate's second shift is a five-bit negation, so a
rotate by zero shifts by zero twice; Zicond tests all of `b`. -/
def bitmanip (op : BmOp) (a b : Word) : Word :=
  let shamt := b.extractLsb' 0 5
  let rshamt := (0 : BitVec 5) - shamt
  let bitmask := (1 : Word) <<< shamt
  match op with
  | .sh1add => (a <<< 1) + b
  | .sh2add => (a <<< 2) + b
  | .sh3add => (a <<< 3) + b
  | .andn => a &&& ~~~b
  | .orn => a ||| ~~~b
  | .xnor => ~~~(a ^^^ b)
  | .clz => (clz a).setWidth 32
  | .ctz => (ctz a).setWidth 32
  | .cpop => (cpop a).setWidth 32
  | .min => if a.slt b then a else b
  | .max => if a.slt b then b else a
  | .minu => if a.ult b then a else b
  | .maxu => if a.ult b then b else a
  | .sextb => (a.extractLsb' 0 8).signExtend 32
  | .sexth => (a.extractLsb' 0 16).signExtend 32
  | .zexth => (a.extractLsb' 0 16).setWidth 32
  | .orcb => orcb a
  | .rev8 => rev8 a
  | .rol => (a <<< shamt) ||| (a >>> rshamt)
  | .ror => (a >>> shamt) ||| (a <<< rshamt)
  | .bset => a ||| bitmask
  | .bclr => a &&& ~~~bitmask
  | .binv => a ^^^ bitmask
  | .bext => flag (a.getLsbD shamt.toNat)
  | .pack => b.extractLsb' 0 16 ++ a.extractLsb' 0 16
  | .packh => (b.extractLsb' 0 8 ++ a.extractLsb' 0 8).setWidth 32
  | .brev8 => brev8 a
  | .zip => zip a
  | .unzip => unzip a
  | .czeqz => if b = 0 then 0 else a
  | .cznez => if b = 0 then a else 0
  | .none => 0

/-- `rvntt_branch`. The two reserved encodings never take. -/
def branchTaken (f3 : BitVec 3) (a b : Word) : Bool :=
  if f3 = 0 then a == b
  else if f3 = 1 then !(a == b)
  else if f3 = 4 then a.slt b
  else if f3 = 5 then !a.slt b
  else if f3 = 6 then a.ult b
  else if f3 = 7 then !a.ult b
  else false

/-- `rvntt_immgen`. -/
def immgen (insn : Word) (fmt : ImmFmt) : Word :=
  match fmt with
  | .i => (insn.extractLsb' 20 12).signExtend 32
  | .s => (insn.extractLsb' 25 7 ++ insn.extractLsb' 7 5).signExtend 32
  | .b => (insn.extractLsb' 31 1 ++ insn.extractLsb' 7 1 ++ insn.extractLsb' 25 6 ++
      insn.extractLsb' 8 4 ++ (0 : BitVec 1)).signExtend 32
  | .u => insn.extractLsb' 12 20 ++ (0 : BitVec 12)
  | .j => (insn.extractLsb' 31 1 ++ insn.extractLsb' 12 8 ++ insn.extractLsb' 20 1 ++
      insn.extractLsb' 21 10 ++ (0 : BitVec 1)).signExtend 32
  | .z => (insn.extractLsb' 15 5).setWidth 32
  | .none => 0

example : bitmanip .ror 0x80000001 0 = 0x80000001 := by decide
example : immgen 0xFE000EE3 .b = -4 := by decide

end Rvntt
