import Rvntt.Encodings
set_option autoImplicit false

/-!
Words back into instructions.
-/

namespace Rvntt.Isa

/-! ### The operations of each format -/

def Cond.all : List Cond := [.eq,.ne,.lt,.ge,.ltu,.geu]

def LoadOp.all : List LoadOp := [.lb,.lh,.lw,.lbu,.lhu]

def StoreOp.all : List StoreOp := [.sb,.sh,.sw]

def ImmOp.all : List ImmOp := [.addi,.slti,.sltiu,.xori,.ori,.andi]

def ShiftOp.all : List ShiftOp := [.slli,.srli,.srai,.rori,.bseti,.bclri,.bexti,.binvi]

def UnOp.all : List UnOp := [.clz,.ctz,.cpop,.sextb,.sexth,.orcb,.rev8,.brev8,.zip,.unzip]

def RegOp.all : List RegOp :=
  [.add,.sub,.sll,.slt,.sltu,.xor,.srl,.sra,.or,.and,.sh1add,.sh2add,.sh3add,.andn,.orn,.xnor,
    .min,.minu,.max,.maxu,.rol,.ror,.bset,.bclr,.bext,.binv,.pack,.packh,.czeroEqz,.czeroNez]

def CsrOp.all : List CsrOp := [.csrrw,.csrrs,.csrrc,.csrrwi,.csrrsi,.csrrci]

namespace Instr

def ofOpImm (w : Word) : Option Instr :=
  match ImmOp.all.find? fun op => op.reg.funct3 == funct3 w with
  | some op => some (opImm op (rdField w) (rs1Field w) (funct12 w))
  | none =>
    match ShiftOp.all.find? fun op => op.reg.funct3 == funct3 w && op.reg.funct7 == funct7 w with
    | some op => some (shiftImm op (rdField w) (rs1Field w) (rs2Field w))
    | none =>
      (UnOp.all.find? fun op => op.funct3 == funct3 w && op.funct12 == funct12 w).map
        (unary · (rdField w) (rs1Field w))

def ofOp (w : Word) : Option Instr :=
  if funct7 w == 0b0000001 then
    some (muldiv (.ofFunct3 (funct3 w)) (rdField w) (rs1Field w) (rs2Field w))
  else
    (RegOp.all.find? fun op => op.funct3 == funct3 w && op.funct7 == funct7 w).map
      (reg · (rdField w) (rs1Field w) (rs2Field w))

def ofSystem (w : Word) : Option Instr :=
  match [ecall,ebreak,mret,wfi].find? fun i => i.encode == w with
  | some i => some i
  | none =>
    (CsrOp.all.find? fun op => op.funct3 == funct3 w).map
      (csr · (funct12 w) (rdField w) (rs1Field w))

def read (w : Word) : Option Instr :=
  if opcode w = 0b0110111 then some (lui (rdField w) (upper w))
  else if opcode w = 0b0010111 then some (auipc (rdField w) (upper w))
  else if opcode w = 0b1101111 then some (jal (rdField w) (offsetJ (upper w)))
  else if opcode w = 0b1100111 then some (jalr (rdField w) (rs1Field w) (funct12 w))
  else if opcode w = 0b1100011 then
    (Cond.all.find? fun c => c.funct3 == funct3 w).map
      (branch · (rs1Field w) (rs2Field w) (offsetB (funct7 w) (rdField w)))
  else if opcode w = 0b0000011 then
    (LoadOp.all.find? fun op => op.funct3 == funct3 w).map
      (load · (rdField w) (rs1Field w) (funct12 w))
  else if opcode w = 0b0100011 then
    (StoreOp.all.find? fun op => op.funct3 == funct3 w).map
      (store · (rs1Field w) (rs2Field w) (funct7 w ++ rdField w))
  else if opcode w = 0b0010011 then ofOpImm w
  else if opcode w = 0b0110011 then ofOp w
  else if opcode w = 0b0001111 then some (fence (funct12 w) (rdField w) (rs1Field w))
  else if opcode w = 0b1110011 then ofSystem w
  else none

def decode (w : Word) : Option Instr := (read w).filter fun i => i.encode == w

theorem encode_of_decode {w : Word} {i : Instr} (h : decode w = some i) : i.encode = w := by
  rw [decode,Option.filter_eq_some_iff] at h
  exact eq_of_beq h.2

/-! ### Every instruction is read back -/

theorem funct3_iType (imm : BitVec 12) (rs1 : BitVec 5) (f3 : BitVec 3) (rd : BitVec 5)
    (op : BitVec 7) : funct3 (iType imm rs1 f3 rd op) = f3 := by
  rw [iType_eq,funct3_rType]

theorem opcode_iType (imm : BitVec 12) (rs1 : BitVec 5) (f3 : BitVec 3) (rd : BitVec 5)
    (op : BitVec 7) : opcode (iType imm rs1 f3 rd op) = op := by
  rw [iType_eq,opcode_rType]

theorem rdField_iType (imm : BitVec 12) (rs1 : BitVec 5) (f3 : BitVec 3) (rd : BitVec 5)
    (op : BitVec 7) : rdField (iType imm rs1 f3 rd op) = rd := by
  rw [iType_eq,rdField_rType]

theorem rs1Field_iType (imm : BitVec 12) (rs1 : BitVec 5) (f3 : BitVec 3) (rd : BitVec 5)
    (op : BitVec 7) : rs1Field (iType imm rs1 f3 rd op) = rs1 := by
  rw [iType_eq,rs1Field_rType]

theorem ofOp_reg (op : RegOp) (rd rs1 rs2 : BitVec 5) :
    ofOp (rType op.funct7 rs2 rs1 op.funct3 rd 0b0110011) = some (reg op rd rs1 rs2) := by
  rw [ofOp,funct7_rType,funct3_rType,rdField_rType,rs1Field_rType,rs2Field_rType]
  cases op <;> rfl

theorem ofOp_muldiv (op : MOp) (rd rs1 rs2 : BitVec 5) :
    ofOp (rType 0b0000001 rs2 rs1 op.funct3 rd 0b0110011) = some (muldiv op rd rs1 rs2) := by
  rw [ofOp,funct7_rType,funct3_rType,rdField_rType,rs1Field_rType,rs2Field_rType]
  cases op <;> rfl

theorem ofOpImm_opImm (op : ImmOp) (rd rs1 : BitVec 5) (imm : BitVec 12) :
    ofOpImm (iType imm rs1 op.reg.funct3 rd 0b0010011) = some (opImm op rd rs1 imm) := by
  rw [ofOpImm,funct3_iType,rdField_iType,rs1Field_iType,funct12_iType]
  cases op <;> rfl

theorem ofOpImm_shiftImm (op : ShiftOp) (rd rs1 sh : BitVec 5) :
    ofOpImm (rType op.reg.funct7 sh rs1 op.reg.funct3 rd 0b0010011) =
      some (shiftImm op rd rs1 sh) := by
  rw [ofOpImm,funct3_rType,funct7_rType,rdField_rType,rs1Field_rType,rs2Field_rType]
  cases op <;> rfl

theorem ofOpImm_unary (op : UnOp) (rd rs1 : BitVec 5) :
    ofOpImm (iType op.funct12 rs1 op.funct3 rd 0b0010011) = some (unary op rd rs1) := by
  have h7 : funct7 (iType op.funct12 rs1 op.funct3 rd 0b0010011) =
      op.funct12.extractLsb' 5 7 := by
    rw [iType_eq,funct7_rType]
  rw [ofOpImm,h7,funct3_iType,rdField_iType,rs1Field_iType,funct12_iType]
  cases op <;> rfl

/-- No access to a CSR is one of the four words without operands. -/
theorem ofSystem_csr (op : CsrOp) (addr : BitVec 12) (rd src : BitVec 5) :
    ofSystem (iType addr src op.funct3 rd 0b1110011) = some (csr op addr rd src) := by
  have hf3 := funct3_iType addr src op.funct3 rd 0b1110011
  have hn : ([ecall,ebreak,mret,wfi].find? fun i =>
      i.encode == iType addr src op.funct3 rd 0b1110011) = none := by
    rw [List.find?_eq_none]
    intro i hi
    rw [beq_iff_eq]
    intro h
    rw [← h] at hf3
    simp only [List.mem_cons,List.not_mem_nil,or_false] at hi
    rcases hi with rfl | rfl | rfl | rfl <;> cases op <;> cases hf3
  rw [ofSystem,hn,hf3,funct12_iType,rdField_iType,rs1Field_iType]
  cases op <;> rfl

theorem read_encode (i : Instr) : read i.encode = some i := by
  cases i with
  | lui rd imm => rw [encode,read,opcode_uType,rdField_uType,upper_uType]; rfl
  | auipc rd imm => rw [encode,read,opcode_uType,rdField_uType,upper_uType]; rfl
  | jal rd imm =>
    rw [encode,jType,read,opcode_uType,rdField_uType,upper_uType]
    exact congrArg (fun o => some (jal rd o)) (offsetJ_upperJ imm)
  | jalr rd rs1 imm =>
    rw [encode,read,opcode_iType,rdField_iType,rs1Field_iType,funct12_iType]
    rfl
  | branch c rs1 rs2 imm =>
    rw [encode,bType,read,opcode_rType,rs1Field_rType,rs2Field_rType,funct3_rType,funct7_rType,
      rdField_rType,offsetB_bType]
    cases c <;> rfl
  | load op rd rs1 imm =>
    rw [encode,read,opcode_iType,funct3_iType,rdField_iType,rs1Field_iType,funct12_iType]
    cases op <;> rfl
  | store op rs1 rs2 imm =>
    have hj : imm.extractLsb' 5 7 ++ imm.extractLsb' 0 5 = imm :=
      (Bits.extract_join imm 0 7 5).trans BitVec.extractLsb'_eq_self
    rw [encode,sType,read,opcode_rType,rs1Field_rType,rs2Field_rType,funct3_rType,funct7_rType,
      rdField_rType,hj]
    cases op <;> rfl
  | opImm op rd rs1 imm =>
    rw [encode,read,opcode_iType]
    exact ofOpImm_opImm op rd rs1 imm
  | shiftImm op rd rs1 sh =>
    rw [encode,read,opcode_rType]
    exact ofOpImm_shiftImm op rd rs1 sh
  | unary op rd rs1 =>
    rw [encode,read,opcode_iType]
    exact ofOpImm_unary op rd rs1
  | reg op rd rs1 rs2 =>
    rw [encode,read,opcode_rType]
    exact ofOp_reg op rd rs1 rs2
  | muldiv op rd rs1 rs2 =>
    rw [encode,read,opcode_rType]
    exact ofOp_muldiv op rd rs1 rs2
  | fence fields rd rs1 =>
    rw [encode,read,opcode_iType,rdField_iType,rs1Field_iType,funct12_iType]
    rfl
  | ecall => rfl
  | ebreak => rfl
  | mret => rfl
  | wfi => rfl
  | csr op addr rd src =>
    rw [encode,read,opcode_iType]
    exact ofSystem_csr op addr rd src

theorem decode_encode (i : Instr) : decode i.encode = some i := by
  rw [decode,read_encode,Option.filter_some,if_pos (beq_self_eq_true _)]

theorem decode_eq_some_iff {w : Word} {i : Instr} : decode w = some i ↔ i.encode = w :=
  ⟨encode_of_decode,fun h => h ▸ decode_encode i⟩

theorem decode_eq_none_iff {w : Word} : decode w = none ↔ ¬∃ i : Instr, i.encode = w := by
  rw [Option.eq_none_iff_forall_ne_some]
  exact ⟨fun h ⟨i,hi⟩ => h i (decode_eq_some_iff.mpr hi),
    fun h i hi => h ⟨i,decode_eq_some_iff.mp hi⟩⟩

theorem encode_injective : Function.Injective encode := fun i j h => by
  have hi := decode_encode i
  rw [h,decode_encode] at hi
  exact (Option.some.inj hi).symm

end Instr

end Rvntt.Isa
