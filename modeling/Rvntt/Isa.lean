import Mathlib.Algebra.Group.Nat.Defs
import Mathlib.Algebra.Ring.Int.Defs
import Rvntt.Pkg
import Rvntt.Lib.Bits
set_option autoImplicit false

/-!
The instruction set of the specification: what each instruction computes, in integers
where it does, how it is encoded, and what it does to the machine.
-/

namespace Rvntt.Isa

/-! ### M -/

inductive MOp where
  | mul | mulh | mulhsu | mulhu | div | divu | rem | remu
  deriving DecidableEq, Repr

def MOp.ofFunct3 (f3 : BitVec 3) : MOp :=
  if f3 = 0 then mul else if f3 = 1 then mulh else if f3 = 2 then mulhsu else if f3 = 3 then mulhu
  else if f3 = 4 then div else if f3 = 5 then divu else if f3 = 6 then rem else remu

def intMin : Word := 0x80000000

/-- Products are exact and cut to a half; quotients round toward zero; a remainder has
the dividend's sign; nothing traps. -/
def MOp.eval (a b : Word) : MOp → Word
  | mul => BitVec.ofInt 32 (a.toInt*b.toInt)
  | mulh => BitVec.ofInt 32 (a.toInt*b.toInt/2^32)
  | mulhsu => BitVec.ofInt 32 (a.toInt*b.toNat/2^32)
  | mulhu => BitVec.ofNat 32 (a.toNat*b.toNat/2^32)
  | div =>
    if b = 0 then -1
    else if a = intMin ∧ b = -1 then intMin
    else BitVec.ofInt 32 (a.toInt.tdiv b.toInt)
  | divu => if b = 0 then -1 else BitVec.ofNat 32 (a.toNat/b.toNat)
  | rem =>
    if b = 0 then a
    else if a = intMin ∧ b = -1 then 0
    else BitVec.ofInt 32 (a.toInt.tmod b.toInt)
  | remu => if b = 0 then a else BitVec.ofNat 32 (a.toNat % b.toNat)

/-! ### Operations on two registers -/

def bits (f : Nat → Bool) : Word := Bits.ofFn 32 f

def flag (p : Prop) [Decidable p] : Word := if p then 1 else 0

def shamt (b : Word) : Nat := b.toNat % 32

inductive RegOp where
  | add | sub | sll | slt | sltu | xor | srl | sra | or | and
  | sh1add | sh2add | sh3add
  | andn | orn | xnor | min | minu | max | maxu | rol | ror
  | bset | bclr | bext | binv
  | pack | packh
  | czeroEqz | czeroNez
  deriving DecidableEq, Repr

def RegOp.eval (a b : Word) : RegOp → Word
  | add => a+b
  | sub => a-b
  | sll => BitVec.ofNat 32 (a.toNat*2^shamt b)
  | slt => flag (a.toInt < b.toInt)
  | sltu => flag (a.toNat < b.toNat)
  | xor => a ^^^ b
  | srl => BitVec.ofNat 32 (a.toNat/2^shamt b)
  | sra => BitVec.ofInt 32 (a.toInt/2^shamt b)
  | or => a ||| b
  | and => a &&& b
  | sh1add => BitVec.ofNat 32 (2*a.toNat+b.toNat)
  | sh2add => BitVec.ofNat 32 (4*a.toNat+b.toNat)
  | sh3add => BitVec.ofNat 32 (8*a.toNat+b.toNat)
  | andn => a &&& ~~~b
  | orn => a ||| ~~~b
  | xnor => ~~~(a ^^^ b)
  | min => if a.toInt < b.toInt then a else b
  | minu => if a.toNat < b.toNat then a else b
  | max => if a.toInt < b.toInt then b else a
  | maxu => if a.toNat < b.toNat then b else a
  | rol => a.rotateLeft (shamt b)
  | ror => a.rotateRight (shamt b)
  | bset => bits fun i => i == shamt b || a.getLsbD i
  | bclr => bits fun i => i != shamt b && a.getLsbD i
  | bext => flag (a.getLsbD (shamt b) = true)
  | binv => bits fun i => (i == shamt b) != a.getLsbD i
  | pack => BitVec.ofNat 32 (2^16*(b.toNat % 2^16)+a.toNat % 2^16)
  | packh => BitVec.ofNat 32 (2^8*(b.toNat % 2^8)+a.toNat % 2^8)
  | czeroEqz => if b = 0 then 0 else a
  | czeroNez => if b = 0 then a else 0

/-! ### Operations on one register -/

inductive UnOp where
  | clz | ctz | cpop | sextb | sexth | orcb | rev8 | brev8 | zip | unzip
  deriving DecidableEq, Repr

def UnOp.eval (a : Word) : UnOp → Word
  | clz => BitVec.ofNat 32 ((List.range 32).takeWhile fun k => !a.getLsbD (31-k)).length
  | ctz => BitVec.ofNat 32 ((List.range 32).takeWhile fun k => !a.getLsbD k).length
  | cpop => BitVec.ofNat 32 ((List.range 32).countP fun k => a.getLsbD k)
  | sextb => BitVec.ofInt 32 (a.setWidth 8).toInt
  | sexth => BitVec.ofInt 32 (a.setWidth 16).toInt
  | orcb => bits fun i => (List.range 8).any fun j => a.getLsbD (8*(i/8)+j)
  | rev8 => bits fun i => a.getLsbD (8*(3-i/8)+i%8)
  | brev8 => bits fun i => a.getLsbD (8*(i/8)+(7-i%8))
  | zip => bits fun i => a.getLsbD (i/2+16*(i%2))
  | unzip => bits fun i => a.getLsbD (2*(i%16)+i/16)

/-! ### Branches, loads and stores -/

inductive Cond where
  | eq | ne | lt | ge | ltu | geu
  deriving DecidableEq, Repr

def Cond.holds (a b : Word) : Cond → Bool
  | eq => a = b
  | ne => a ≠ b
  | lt => a.toInt < b.toInt
  | ge => b.toInt ≤ a.toInt
  | ltu => a.toNat < b.toNat
  | geu => b.toNat ≤ a.toNat

inductive LoadOp where
  | lb | lh | lw | lbu | lhu
  deriving DecidableEq, Repr

def LoadOp.size : LoadOp → Nat
  | lb => 1
  | lh => 2
  | lw => 4
  | lbu => 1
  | lhu => 2

/-- Memory is little-endian. -/
def LoadOp.value (mem : Word → BitVec 8) (a : Word) : LoadOp → Word
  | lb => (mem a).signExtend 32
  | lh => (mem (a+1) ++ mem a).signExtend 32
  | lw => mem (a+3) ++ mem (a+2) ++ mem (a+1) ++ mem a
  | lbu => (mem a).setWidth 32
  | lhu => (mem (a+1) ++ mem a).setWidth 32

inductive StoreOp where
  | sb | sh | sw
  deriving DecidableEq, Repr

def StoreOp.size : StoreOp → Nat
  | sb => 1
  | sh => 2
  | sw => 4

/-! ### Instructions -/

inductive ImmOp where
  | addi | slti | sltiu | xori | ori | andi
  deriving DecidableEq, Repr

def ImmOp.reg : ImmOp → RegOp
  | addi => .add
  | slti => .slt
  | sltiu => .sltu
  | xori => .xor
  | ori => .or
  | andi => .and

inductive ShiftOp where
  | slli | srli | srai | rori | bseti | bclri | bexti | binvi
  deriving DecidableEq, Repr

def ShiftOp.reg : ShiftOp → RegOp
  | slli => .sll
  | srli => .srl
  | srai => .sra
  | rori => .ror
  | bseti => .bset
  | bclri => .bclr
  | bexti => .bext
  | binvi => .binv

inductive CsrOp where
  | csrrw | csrrs | csrrc | csrrwi | csrrsi | csrrci
  deriving DecidableEq, Repr

/-- RV32IM, Zba, Zbb, Zbs, Zbkb, Zicond, Zicsr and the machine-mode instructions. The
immediate of a branch or a JAL is its offset in halfwords. `zext.h rd,rs1` is
`pack rd,rs1,x0`. -/
inductive Instr where
  | lui (rd : BitVec 5) (imm : BitVec 20)
  | auipc (rd : BitVec 5) (imm : BitVec 20)
  | jal (rd : BitVec 5) (imm : BitVec 20)
  | jalr (rd rs1 : BitVec 5) (imm : BitVec 12)
  | branch (c : Cond) (rs1 rs2 : BitVec 5) (imm : BitVec 12)
  | load (op : LoadOp) (rd rs1 : BitVec 5) (imm : BitVec 12)
  | store (op : StoreOp) (rs1 rs2 : BitVec 5) (imm : BitVec 12)
  | opImm (op : ImmOp) (rd rs1 : BitVec 5) (imm : BitVec 12)
  | shiftImm (op : ShiftOp) (rd rs1 sh : BitVec 5)
  | unary (op : UnOp) (rd rs1 : BitVec 5)
  | reg (op : RegOp) (rd rs1 rs2 : BitVec 5)
  | muldiv (op : MOp) (rd rs1 rs2 : BitVec 5)
  | fence (fields : BitVec 12) (rd rs1 : BitVec 5)
  | ecall | ebreak | mret | wfi
  | csr (op : CsrOp) (addr : BitVec 12) (rd src : BitVec 5)
  deriving DecidableEq, Repr

/-! ### Encoding -/

def rType (f7 : BitVec 7) (rs2 rs1 : BitVec 5) (f3 : BitVec 3) (rd : BitVec 5)
    (op : BitVec 7) : Word :=
  f7 ++ rs2 ++ rs1 ++ f3 ++ rd ++ op

def iType (imm : BitVec 12) (rs1 : BitVec 5) (f3 : BitVec 3) (rd : BitVec 5)
    (op : BitVec 7) : Word :=
  imm ++ rs1 ++ f3 ++ rd ++ op

def sType (imm : BitVec 12) (rs2 rs1 : BitVec 5) (f3 : BitVec 3) (op : BitVec 7) : Word :=
  rType (imm.extractLsb' 5 7) rs2 rs1 f3 (imm.extractLsb' 0 5) op

/-- From the top: offset bits 12, 10 to 5, then 4 to 1, 11. -/
def bType (imm : BitVec 12) (rs2 rs1 : BitVec 5) (f3 : BitVec 3) (op : BitVec 7) : Word :=
  rType (imm.extractLsb' 11 1 ++ imm.extractLsb' 4 6) rs2 rs1 f3
    (imm.extractLsb' 0 4 ++ imm.extractLsb' 10 1) op

def uType (imm : BitVec 20) (rd : BitVec 5) (op : BitVec 7) : Word := imm ++ rd ++ op

/-- From the top: offset bits 20, 10 to 1, 11, 19 to 12. -/
def jType (imm : BitVec 20) (rd : BitVec 5) (op : BitVec 7) : Word :=
  uType (imm.extractLsb' 19 1 ++ imm.extractLsb' 0 10 ++ imm.extractLsb' 10 1 ++
    imm.extractLsb' 11 8) rd op

def MOp.funct3 : MOp → BitVec 3
  | mul => 0
  | mulh => 1
  | mulhsu => 2
  | mulhu => 3
  | div => 4
  | divu => 5
  | rem => 6
  | remu => 7

def RegOp.funct7 : RegOp → BitVec 7
  | add | sll | slt | sltu | xor | srl | or | and => 0b0000000
  | sub | sra | andn | orn | xnor => 0b0100000
  | sh1add | sh2add | sh3add => 0b0010000
  | min | minu | max | maxu => 0b0000101
  | rol | ror => 0b0110000
  | bset => 0b0010100
  | bclr | bext => 0b0100100
  | binv => 0b0110100
  | pack | packh => 0b0000100
  | czeroEqz | czeroNez => 0b0000111

def RegOp.funct3 : RegOp → BitVec 3
  | add | sub => 0b000
  | sll | rol | bset | bclr | binv => 0b001
  | slt | sh1add => 0b010
  | sltu => 0b011
  | xor | sh2add | xnor | min | pack => 0b100
  | srl | sra | minu | ror | bext | czeroEqz => 0b101
  | or | sh3add | orn | max => 0b110
  | and | andn | maxu | packh | czeroNez => 0b111

def UnOp.funct12 : UnOp → BitVec 12
  | clz => 0x600
  | ctz => 0x601
  | cpop => 0x602
  | sextb => 0x604
  | sexth => 0x605
  | orcb => 0x287
  | rev8 => 0x698
  | brev8 => 0x687
  | zip => 0x08F
  | unzip => 0x08F

def UnOp.funct3 : UnOp → BitVec 3
  | clz | ctz | cpop | sextb | sexth | zip => 0b001
  | orcb | rev8 | brev8 | unzip => 0b101

def Cond.funct3 : Cond → BitVec 3
  | eq => 0b000
  | ne => 0b001
  | lt => 0b100
  | ge => 0b101
  | ltu => 0b110
  | geu => 0b111

def LoadOp.funct3 : LoadOp → BitVec 3
  | lb => 0b000
  | lh => 0b001
  | lw => 0b010
  | lbu => 0b100
  | lhu => 0b101

def StoreOp.funct3 : StoreOp → BitVec 3
  | sb => 0b000
  | sh => 0b001
  | sw => 0b010

def CsrOp.funct3 : CsrOp → BitVec 3
  | csrrw => 0b001
  | csrrs => 0b010
  | csrrc => 0b011
  | csrrwi => 0b101
  | csrrsi => 0b110
  | csrrci => 0b111

def Instr.encode : Instr → Word
  | lui rd imm => uType imm rd 0b0110111
  | auipc rd imm => uType imm rd 0b0010111
  | jal rd imm => jType imm rd 0b1101111
  | jalr rd rs1 imm => iType imm rs1 0b000 rd 0b1100111
  | branch c rs1 rs2 imm => bType imm rs2 rs1 c.funct3 0b1100011
  | load op rd rs1 imm => iType imm rs1 op.funct3 rd 0b0000011
  | store op rs1 rs2 imm => sType imm rs2 rs1 op.funct3 0b0100011
  | opImm op rd rs1 imm => iType imm rs1 op.reg.funct3 rd 0b0010011
  | shiftImm op rd rs1 sh => rType op.reg.funct7 sh rs1 op.reg.funct3 rd 0b0010011
  | unary op rd rs1 => iType op.funct12 rs1 op.funct3 rd 0b0010011
  | reg op rd rs1 rs2 => rType op.funct7 rs2 rs1 op.funct3 rd 0b0110011
  | muldiv op rd rs1 rs2 => rType 0b0000001 rs2 rs1 op.funct3 rd 0b0110011
  | fence fields rd rs1 => iType fields rs1 0b000 rd 0b0001111
  | ecall => 0x00000073
  | ebreak => 0x00100073
  | mret => 0x30200073
  | wfi => 0x10500073
  | csr op addr rd src => iType addr src op.funct3 rd 0b1110011

/-! ### Meaning -/

structure Env where
  pc : Word
  rs1 : Word
  rs2 : Word
  mem : Word → BitVec 8
  mtvec : Word
  mepc : Word

/-- What an instruction does, memory writes apart: the cause and value of an exception,
the register written, the effective address, and the next pc. -/
structure Outcome where
  trap : Option (BitVec 5 × Word) := none
  dest : Option (BitVec 5 × Word) := none
  addr : Option Word := none
  next : Word
  deriving DecidableEq, Repr

def simm (imm : BitVec 12) : Word := BitVec.ofInt 32 imm.toInt
def uimm (imm : BitVec 20) : Word := BitVec.ofNat 32 (2^12*imm.toNat)

def offset {n : Nat} (imm : BitVec n) : Word := BitVec.ofInt 32 (2*imm.toInt)

/-- Instructions are words; at an even pc, bit 0 of every target is clear. -/
def fetchMisaligned (target : Word) : Bool := target.getLsbD 1

def transfer (e : Env) (target : Word) (dest : Option (BitVec 5 × Word)) : Outcome :=
  if fetchMisaligned target then {trap := some (0,target), next := e.mtvec}
  else {dest := dest, next := target}

def access (e : Env) (cause : BitVec 5) (size : Nat) (a : Word)
    (dest : Option (BitVec 5 × Word)) : Outcome :=
  if a.toNat % size ≠ 0 then {trap := some (cause,a), addr := some a, next := e.mtvec}
  else {dest := dest, addr := some a, next := e.pc+4}

def compute (e : Env) (rd : BitVec 5) (v : Word) : Outcome :=
  {dest := some (rd,v), next := e.pc+4}

def Instr.target (e : Env) : Instr → Option Word
  | jal _ imm => some (e.pc+offset imm)
  | jalr _ _ imm => some ((e.rs1+simm imm) &&& ~~~1)
  | branch c _ _ imm => if c.holds e.rs1 e.rs2 then some (e.pc+offset imm) else none
  | _ => none

/-- What an instruction does; a CSR access is `rvntt_csr`'s business. -/
def Instr.exec (e : Env) : Instr → Option Outcome
  | lui rd imm => some (compute e rd (uimm imm))
  | auipc rd imm => some (compute e rd (e.pc+uimm imm))
  | jal rd imm => some (transfer e (e.pc+offset imm) (some (rd,e.pc+4)))
  | jalr rd _ imm => some (transfer e ((e.rs1+simm imm) &&& ~~~1) (some (rd,e.pc+4)))
  | branch c _ _ imm =>
    if c.holds e.rs1 e.rs2 then some (transfer e (e.pc+offset imm) none)
    else some {next := e.pc+4}
  | load op rd _ imm =>
    some (access e 4 op.size (e.rs1+simm imm) (some (rd,op.value e.mem (e.rs1+simm imm))))
  | store op _ _ imm => some (access e 6 op.size (e.rs1+simm imm) none)
  | opImm op rd _ imm => some (compute e rd (op.reg.eval e.rs1 (simm imm)))
  | shiftImm op rd _ sh => some (compute e rd (op.reg.eval e.rs1 (sh.setWidth 32)))
  | unary op rd _ => some (compute e rd (op.eval e.rs1))
  | reg op rd _ _ => some (compute e rd (op.eval e.rs1 e.rs2))
  | muldiv op rd _ _ => some (compute e rd (op.eval e.rs1 e.rs2))
  | ecall => some {trap := some (11,0), next := e.mtvec}
  | ebreak => some {trap := some (3,e.pc), next := e.mtvec}
  | mret => some {next := e.mepc}
  | fence _ _ _ | wfi => some {next := e.pc+4}
  | csr _ _ _ _ => none

/-! ### Targets -/

theorem fetchMisaligned_iff {t : Word} (h : t.toNat % 2 = 0) :
    fetchMisaligned t = decide (t.toNat % 4 ≠ 0) := by
  rw [fetchMisaligned,BitVec.getLsbD,Nat.testBit_succ,Nat.testBit_zero,Bool.eq_iff_iff]
  simp only [decide_eq_true_iff]
  omega

theorem offset_even {n : Nat} (imm : BitVec n) : (offset imm).toNat % 2 = 0 := by
  rw [offset,BitVec.toNat_ofInt]
  omega

theorem add_offset_even {n : Nat} {a : Word} (h : a.toNat % 2 = 0) (imm : BitVec n) :
    (a+offset imm).toNat % 2 = 0 := by
  have hi := offset_even imm
  rw [BitVec.toNat_add]
  omega

theorem clear_even (a : Word) : (a &&& ~~~1).toNat % 2 = 0 := by
  have h : (a &&& ~~~1).getLsbD 0 = false := by
    rw [BitVec.getLsbD_and,BitVec.getLsbD_not]
    exact Bool.and_false _
  rw [BitVec.getLsbD,Nat.testBit_zero,decide_eq_false_iff_not] at h
  omega

theorem Instr.target_even {e : Env} (h : e.pc.toNat % 2 = 0) {i : Instr} {t : Word}
    (ht : i.target e = some t) : t.toNat % 2 = 0 := by
  cases i with
  | jal rd imm =>
    cases ht
    exact add_offset_even h imm
  | jalr rd rs1 imm =>
    cases ht
    exact clear_even _
  | branch c rs1 rs2 imm =>
    simp only [target] at ht
    split at ht
    · cases ht
      exact add_offset_even h imm
    · cases ht
  | _ => cases ht

end Rvntt.Isa
