import Rvntt.Encodings
set_option autoImplicit false

/-!
Which words `rvntt_decode` accepts, and the bundle it makes of each.
-/

namespace Rvntt

open Isa

def UnitOp.ctrl (c : Ctrl) : UnitOp → Ctrl
  | .alu op => {c with aluOp := op}
  | .bm op => {c with isBitmanip := true, bmOp := op}

def ctrlOf : Instr → Ctrl
  | .lui _ _ => ctrlLui
  | .auipc _ _ => ctrlAuipc
  | .jal _ _ => ctrlJal
  | .jalr _ _ _ => ctrlJalr
  | .branch _ _ _ _ => ctrlBranch
  | .load op _ _ _ => ctrlLoad op.funct3
  | .store op _ _ _ => ctrlStore op.funct3
  | .opImm op _ _ _ => (regUnit op.reg).ctrl ctrlOpImm
  | .shiftImm op _ _ _ => (regUnit op.reg).ctrl ctrlOpImm
  | .unary op _ _ => UnitOp.ctrl ctrlOpImm (.bm (unOp op))
  | .reg op _ _ _ => (regUnit op).ctrl ctrlOp
  | .muldiv op _ _ _ => {ctrlOp with isMuldiv := true, muldivOp := op.funct3}
  | .fence _ _ _ | .wfi => {}
  | .ecall => {isEcall := true}
  | .ebreak => {isEbreak := true}
  | .mret => {isMret := true}
  | .csr op _ _ _ => if op.funct3.getLsbD 2 then ctrlCsrImm else ctrlCsrReg

/-! ### One arm per opcode -/

section arms

variable {w : Word}

theorem arm_lui (h : opcode w = 0b0110111) : decodeArm w = ctrlLui := by
  rw [decodeArm,h]
  rfl

theorem arm_auipc (h : opcode w = 0b0010111) : decodeArm w = ctrlAuipc := by
  rw [decodeArm,h]
  rfl

theorem arm_jal (h : opcode w = 0b1101111) : decodeArm w = ctrlJal := by
  rw [decodeArm,h]
  rfl

theorem arm_jalr (h : opcode w = 0b1100111) : decodeArm w = decodeJalr (funct3 w) := by
  rw [decodeArm,h]
  rfl

theorem arm_branch (h : opcode w = 0b1100011) : decodeArm w = decodeBranch (funct3 w) := by
  rw [decodeArm,h]
  rfl

theorem arm_load (h : opcode w = 0b0000011) : decodeArm w = decodeLoad (funct3 w) := by
  rw [decodeArm,h]
  rfl

theorem arm_store (h : opcode w = 0b0100011) : decodeArm w = decodeStore (funct3 w) := by
  rw [decodeArm,h]
  rfl

theorem arm_opImm (h : opcode w = 0b0010011) :
    decodeArm w = decodeOpImm (funct7 w) (funct3 w) (rs2Field w) := by
  rw [decodeArm,h]
  rfl

theorem arm_op (h : opcode w = 0b0110011) : decodeArm w = decodeOp (funct7 w) (funct3 w) := by
  rw [decodeArm,h]
  rfl

theorem arm_miscMem (h : opcode w = 0b0001111) : decodeArm w = decodeMiscMem (funct3 w) := by
  rw [decodeArm,h]
  rfl

theorem arm_system (h : opcode w = 0b1110011) : decodeArm w = decodeSystem w := by
  rw [decodeArm,h]
  rfl

end arms

/-! ### Every encoding is decoded -/

theorem funct3_reg_imm (op : ImmOp) (f7 : BitVec 7) (r : BitVec 5) :
    decodeOpImm f7 op.reg.funct3 r = (regUnit op.reg).ctrl ctrlOpImm := by
  cases op <;> simp [decodeOpImm,bmOpI,ImmOp.reg,RegOp.funct3,regUnit,UnitOp.ctrl,ctrlOpImm]

theorem decode_shiftImm (op : ShiftOp) (sh : BitVec 5) :
    legalise (decodeOpImm op.reg.funct7 op.reg.funct3 sh) = (regUnit op.reg).ctrl ctrlOpImm := by
  cases op <;> rfl

theorem decode_unary (op : UnOp) :
    legalise (decodeOpImm (op.funct12.extractLsb' 5 7) op.funct3 (op.funct12.extractLsb' 0 5)) =
      UnitOp.ctrl ctrlOpImm (.bm (unOp op)) := by
  cases op <;> decide

theorem decode_reg (op : RegOp) :
    legalise (decodeOp op.funct7 op.funct3) = (regUnit op).ctrl ctrlOp := by
  cases op <;> rfl

theorem decode_encode (i : Instr) : decode i.encode = ctrlOf i := by
  rw [decode]
  cases i with
  | lui rd imm => rw [Instr.encode,arm_lui (opcode_uType _ _ _)]; rfl
  | auipc rd imm => rw [Instr.encode,arm_auipc (opcode_uType _ _ _)]; rfl
  | jal rd imm => rw [Instr.encode,jType,arm_jal (opcode_uType _ _ _)]; rfl
  | jalr rd rs1 imm =>
    rw [Instr.encode,iType_eq,arm_jalr (opcode_rType _ _ _ _ _ _),funct3_rType]
    rfl
  | branch c rs1 rs2 imm =>
    rw [Instr.encode,bType,arm_branch (opcode_rType _ _ _ _ _ _),funct3_rType]
    cases c <;> rfl
  | load op rd rs1 imm =>
    rw [Instr.encode,iType_eq,arm_load (opcode_rType _ _ _ _ _ _),funct3_rType]
    cases op <;> rfl
  | store op rs1 rs2 imm =>
    rw [Instr.encode,sType,arm_store (opcode_rType _ _ _ _ _ _),funct3_rType]
    cases op <;> rfl
  | opImm op rd rs1 imm =>
    rw [Instr.encode,iType_eq,arm_opImm (opcode_rType _ _ _ _ _ _),funct3_rType,funct3_reg_imm]
    cases op <;> rfl
  | shiftImm op rd rs1 sh =>
    rw [Instr.encode,arm_opImm (opcode_rType _ _ _ _ _ _),funct3_rType,funct7_rType,rs2Field_rType]
    exact decode_shiftImm op sh
  | unary op rd rs1 =>
    rw [Instr.encode,iType_eq,arm_opImm (opcode_rType _ _ _ _ _ _),funct3_rType,funct7_rType,
      rs2Field_rType]
    exact decode_unary op
  | reg op rd rs1 rs2 =>
    rw [Instr.encode,arm_op (opcode_rType _ _ _ _ _ _),funct3_rType,funct7_rType]
    exact decode_reg op
  | muldiv op rd rs1 rs2 =>
    rw [Instr.encode,arm_op (opcode_rType _ _ _ _ _ _),funct3_rType,funct7_rType]
    rfl
  | fence fields rd rs1 =>
    rw [Instr.encode,iType_eq,arm_miscMem (opcode_rType _ _ _ _ _ _),funct3_rType]
    rfl
  | ecall => rfl
  | ebreak => rfl
  | mret => rfl
  | wfi => rfl
  | csr op addr rd src =>
    rw [Instr.encode,iType_eq,arm_system (opcode_rType _ _ _ _ _ _),decodeSystem,funct3_rType]
    cases op <;> rfl

theorem ctrlOf_legal (i : Instr) : (ctrlOf i).isIllegal = false := by
  have hu : ∀ (c : Ctrl) (u : UnitOp), c.isIllegal = false → (u.ctrl c).isIllegal = false := by
    intro c u h
    cases u <;> exact h
  cases i with
  | opImm => exact hu _ _ rfl
  | shiftImm => exact hu _ _ rfl
  | unary => exact hu _ _ rfl
  | reg => exact hu _ _ rfl
  | csr op => cases op <;> rfl
  | _ => rfl

/-! ### Nothing else is -/

theorem legalise_isIllegal (c : Ctrl) : (legalise c).isIllegal = c.isIllegal := by
  unfold legalise
  split
  · rename_i h
    exact h.symm
  · rfl

theorem branch_of_legal : ∀ {f3 : BitVec 3}, (decodeBranch f3).isIllegal = false →
    ∃ c ∈ [Cond.eq,.ne,.lt,.ge,.ltu,.geu], c.funct3 = f3 := by decide

theorem load_of_legal : ∀ {f3 : BitVec 3}, (decodeLoad f3).isIllegal = false →
    ∃ op ∈ [LoadOp.lb,.lh,.lw,.lbu,.lhu], op.funct3 = f3 := by decide

theorem store_of_legal : ∀ {f3 : BitVec 3}, (decodeStore f3).isIllegal = false →
    ∃ op ∈ [StoreOp.sb,.sh,.sw], op.funct3 = f3 := by decide

def immOps : List ImmOp := [.addi,.slti,.sltiu,.xori,.ori,.andi]

def shiftOps : List ShiftOp := [.slli,.srli,.srai,.rori,.bseti,.bclri,.bexti,.binvi]

def unOps : List UnOp := [.clz,.ctz,.cpop,.sextb,.sexth,.orcb,.rev8,.brev8,.zip,.unzip]

theorem imm_or_shift : ∀ f3 : BitVec 3,
    (∃ op ∈ immOps, op.reg.funct3 = f3) ∨ f3 = 1 ∨ f3 = 5 := by decide

theorem shift_of_legal : ∀ (f7 : BitVec 7) (r : BitVec 5),
    ((decodeOpImm f7 1 r).isIllegal = false →
      (∃ op ∈ shiftOps, op.reg.funct7 = f7 ∧ op.reg.funct3 = 1) ∨
        ∃ op ∈ unOps, op.funct12 = f7 ++ r ∧ op.funct3 = 1) ∧
    ((decodeOpImm f7 5 r).isIllegal = false →
      (∃ op ∈ shiftOps, op.reg.funct7 = f7 ∧ op.reg.funct3 = 5) ∨
        ∃ op ∈ unOps, op.funct12 = f7 ++ r ∧ op.funct3 = 5) := by decide +kernel

def regOps : List RegOp :=
  [.add,.sub,.sll,.slt,.sltu,.xor,.srl,.sra,.or,.and,.sh1add,.sh2add,.sh3add,.andn,.orn,.xnor,
    .min,.minu,.max,.maxu,.rol,.ror,.bset,.bclr,.bext,.binv,.pack,.packh,.czeroEqz,.czeroNez]

theorem reg_of_legal : ∀ (f7 : BitVec 7) (f3 : BitVec 3), (decodeOp f7 f3).isIllegal = false →
    f7 = 0b0000001 ∨ ∃ op ∈ regOps, op.funct7 = f7 ∧ op.funct3 = f3 := by decide +kernel

theorem muldiv_all : ∀ f3 : BitVec 3,
    ∃ op ∈ [MOp.mul,.mulh,.mulhsu,.mulhu,.div,.divu,.rem,.remu], op.funct3 = f3 := by decide

theorem csr_of_funct3 : ∀ {f3 : BitVec 3},
    (f3 = 1 ∨ f3 = 2 ∨ f3 = 3) ∨ (f3 = 5 ∨ f3 = 6 ∨ f3 = 7) →
    ∃ op ∈ [CsrOp.csrrw,.csrrs,.csrrc,.csrrwi,.csrrsi,.csrrci], op.funct3 = f3 := by decide

section words

variable {w : Word}

def Accepts (w : Word) (c : Ctrl) : Prop := c.isIllegal = false → ∃ i : Instr, i.encode = w

theorem accepts_illegal : Accepts w .illegal := fun h => by cases h

theorem accepts_opImm (ho : opcode w = 0b0010011) :
    Accepts w (decodeOpImm (funct7 w) (funct3 w) (rs2Field w)) := by
  intro h
  have hi := iType_fields w
  have hr := rType_fields w
  rw [ho] at hi hr
  have hs : ∀ f3 : BitVec 3, funct3 w = f3 →
      ((∃ op ∈ shiftOps, op.reg.funct7 = funct7 w ∧ op.reg.funct3 = f3) ∨
        ∃ op ∈ unOps, op.funct12 = funct7 w ++ rs2Field w ∧ op.funct3 = f3) →
      ∃ i : Instr, i.encode = w := by
    rintro f3 rfl (⟨op,_,h7,h3⟩ | ⟨op,_,h12,h3⟩)
    · exact ⟨.shiftImm op (rdField w) (rs1Field w) (rs2Field w),by rw [Instr.encode,h7,h3]; exact hr⟩
    · exact ⟨.unary op (rdField w) (rs1Field w),by
        rw [Instr.encode,h12,h3,← funct12_eq]; exact hi⟩
  rcases imm_or_shift (funct3 w) with ⟨op,_,h3⟩ | h3 | h3
  · exact ⟨.opImm op (rdField w) (rs1Field w) (funct12 w),by rw [Instr.encode,h3]; exact hi⟩
  · rw [h3] at h
    exact hs 1 h3 ((shift_of_legal _ _).1 h)
  · rw [h3] at h
    exact hs 5 h3 ((shift_of_legal _ _).2 h)

theorem accepts_op (ho : opcode w = 0b0110011) : Accepts w (decodeOp (funct7 w) (funct3 w)) := by
  intro h
  have hr := rType_fields w
  rw [ho] at hr
  rcases reg_of_legal _ _ h with h7 | ⟨op,_,h7,h3⟩
  · obtain ⟨op,_,h3⟩ := muldiv_all (funct3 w)
    exact ⟨.muldiv op (rdField w) (rs1Field w) (rs2Field w),by
      rw [Instr.encode,h3,← h7]; exact hr⟩
  · exact ⟨.reg op (rdField w) (rs1Field w) (rs2Field w),by rw [Instr.encode,h7,h3]; exact hr⟩

theorem accepts_system (ho : opcode w = 0b1110011) : Accepts w (decodeSystem w) := by
  have hi := iType_fields w
  rw [ho] at hi
  have hcsr : (funct3 w = 1 ∨ funct3 w = 2 ∨ funct3 w = 3) ∨
      (funct3 w = 5 ∨ funct3 w = 6 ∨ funct3 w = 7) → ∃ i : Instr, i.encode = w := by
    intro hf
    obtain ⟨op,_,h3⟩ := csr_of_funct3 hf
    exact ⟨.csr op (funct12 w) (rdField w) (rs1Field w),by rw [Instr.encode,h3]; exact hi⟩
  rw [decodeSystem]
  refine ite_of (Accepts w) (fun h3 => ite_of (Accepts w) (fun hz => ?_) fun _ => ?_) fun _ => ?_
  · -- the four words without operands
    rw [h3,hz.1,hz.2] at hi
    refine ite_of (Accepts w) (fun hf _ => ⟨.ecall,by rw [← hi,hf]; rfl⟩) fun _ => ?_
    refine ite_of (Accepts w) (fun hf _ => ⟨.ebreak,by rw [← hi,hf]; rfl⟩) fun _ => ?_
    refine ite_of (Accepts w) (fun hf _ => ⟨.mret,by rw [← hi,hf]; rfl⟩) fun _ => ?_
    exact ite_of (Accepts w) (fun hf _ => ⟨.wfi,by rw [← hi,hf]; rfl⟩) fun _ => accepts_illegal
  · exact accepts_illegal
  · refine ite_of (Accepts w) (fun hf _ => hcsr (.inl hf)) fun _ => ?_
    exact ite_of (Accepts w) (fun hf _ => hcsr (.inr hf)) fun _ => accepts_illegal

theorem accepts_decodeArm (w : Word) : Accepts w (decodeArm w) := by
  have hr := rType_fields w
  have hi := iType_fields w
  have hu := uType_fields w
  rw [decodeArm]
  refine ite_of (Accepts w) (fun ho _ => ?_) fun _ => ?_
  · rw [ho] at hu
    exact ⟨.lui (rdField w) (upper w),hu⟩
  refine ite_of (Accepts w) (fun ho _ => ?_) fun _ => ?_
  · rw [ho] at hu
    exact ⟨.auipc (rdField w) (upper w),hu⟩
  refine ite_of (Accepts w) (fun ho _ => ?_) fun _ => ?_
  · rw [ho,← upperJ_offsetJ (upper w)] at hu
    exact ⟨.jal (rdField w) (offsetJ (upper w)),hu⟩
  refine ite_of (Accepts w) (fun ho => ?_) fun _ => ?_
  · refine ite_of (Accepts w) (fun h3 _ => ?_) fun _ => accepts_illegal
    rw [ho,h3] at hi
    exact ⟨.jalr (rdField w) (rs1Field w) (funct12 w),hi⟩
  refine ite_of (Accepts w) (fun ho h => ?_) fun _ => ?_
  · obtain ⟨c,_,h3⟩ := branch_of_legal h
    rw [ho,← bType_offsetB,← h3] at hr
    exact ⟨.branch c (rs1Field w) (rs2Field w) (offsetB (funct7 w) (rdField w)),hr⟩
  refine ite_of (Accepts w) (fun ho h => ?_) fun _ => ?_
  · obtain ⟨op,_,h3⟩ := load_of_legal h
    rw [ho,← h3] at hi
    exact ⟨.load op (rdField w) (rs1Field w) (funct12 w),hi⟩
  refine ite_of (Accepts w) (fun ho h => ?_) fun _ => ?_
  · obtain ⟨op,_,h3⟩ := store_of_legal h
    have hs := sType_fields w
    rw [ho,← h3] at hs
    exact ⟨.store op (rs1Field w) (rs2Field w) (funct7 w ++ rdField w),hs⟩
  refine ite_of (Accepts w) accepts_opImm fun _ => ?_
  refine ite_of (Accepts w) accepts_op fun _ => ?_
  refine ite_of (Accepts w) (fun ho => ?_) fun _ => ?_
  · refine ite_of (Accepts w) (fun h3 _ => ?_) fun _ => accepts_illegal
    rw [ho,h3] at hi
    exact ⟨.fence (funct12 w) (rdField w) (rs1Field w),hi⟩
  exact ite_of (Accepts w) accepts_system fun _ => accepts_illegal

end words

/-- The decoder accepts exactly the encodings. -/
theorem legal_iff (w : Word) : (decode w).isIllegal = true ↔ ¬∃ i : Instr, i.encode = w := by
  constructor
  · rintro h ⟨i,rfl⟩
    rw [decode_encode,ctrlOf_legal] at h
    cases h
  · intro h
    by_contra hl
    rw [decode,legalise_isIllegal] at hl
    exact h (accepts_decodeArm w (Bool.not_eq_true _ ▸ hl))

/-! `FENCE.I`, and `zip` with the shift amount of a reserved neighbour. -/

example : (decode 0x0000100F).isIllegal = true := by decide

example : (decode 0x08E09093).isIllegal = true := by decide

end Rvntt
