import Rvntt.Datapath
set_option autoImplicit false

namespace Rvntt

/-- The register-register bit-manipulation table. `zext.h` is `pack` with
`rs2 = x0`, so it has no row. -/
def bmOpR (f7 : BitVec 7) (f3 : BitVec 3) : BmOp :=
  if f7 = f7ZbaShadd ∧ f3 = 2 then .sh1add
  else if f7 = f7ZbaShadd ∧ f3 = 4 then .sh2add
  else if f7 = f7ZbaShadd ∧ f3 = 6 then .sh3add
  else if f7 = f7Alt ∧ f3 = 4 then .xnor
  else if f7 = f7Alt ∧ f3 = 6 then .orn
  else if f7 = f7Alt ∧ f3 = 7 then .andn
  else if f7 = f7ZbbMinmax ∧ f3 = 4 then .min
  else if f7 = f7ZbbMinmax ∧ f3 = 5 then .minu
  else if f7 = f7ZbbMinmax ∧ f3 = 6 then .max
  else if f7 = f7ZbbMinmax ∧ f3 = 7 then .maxu
  else if f7 = f7ZbbRot ∧ f3 = 1 then .rol
  else if f7 = f7ZbbRot ∧ f3 = 5 then .ror
  else if f7 = f7ZbsBset ∧ f3 = 1 then .bset
  else if f7 = f7ZbsBclr ∧ f3 = 1 then .bclr
  else if f7 = f7ZbsBclr ∧ f3 = 5 then .bext
  else if f7 = f7ZbsBinv ∧ f3 = 1 then .binv
  else if f7 = f7ZbkbPack ∧ f3 = 4 then .pack
  else if f7 = f7ZbkbPack ∧ f3 = 7 then .packh
  else if f7 = f7Zicond ∧ f3 = 5 then .czeqz
  else if f7 = f7Zicond ∧ f3 = 7 then .cznez
  else .none

/-- The OP-IMM table; the unary forms are told apart by the `rs2` field alone. -/
def bmOpI (f7 : BitVec 7) (f3 : BitVec 3) (immRs2 : BitVec 5) : BmOp :=
  if f7 = f7ZbbRot ∧ f3 = 1 then
    if immRs2 = rs2Clz then .clz
    else if immRs2 = rs2Ctz then .ctz
    else if immRs2 = rs2Cpop then .cpop
    else if immRs2 = rs2Sextb then .sextb
    else if immRs2 = rs2Sexth then .sexth
    else .none
  else if f7 = f7ZbbRot ∧ f3 = 5 then .ror
  else if f7 = f7ZbsBset ∧ f3 = 1 then .bset
  else if f7 = f7ZbsBset ∧ f3 = 5 then if immRs2 = rs2Orcb then .orcb else .none
  else if f7 = f7ZbsBclr ∧ f3 = 1 then .bclr
  else if f7 = f7ZbsBclr ∧ f3 = 5 then .bext
  else if f7 = f7ZbsBinv ∧ f3 = 1 then .binv
  else if f7 = f7ZbsBinv ∧ f3 = 5 then
    if immRs2 = rs2Rev8 then .rev8
    else if immRs2 = rs2Brev8 then .brev8
    else .none
  else if f7 = f7ZbkbPack ∧ f3 = 1 then if immRs2 = rs2Zipunz then .zip else .none
  else if f7 = f7ZbkbPack ∧ f3 = 5 then if immRs2 = rs2Zipunz then .unzip else .none
  else .none

/-! The bundles the arms assign when the word is legal. -/

def ctrlLui : Ctrl :=
  {regWrite := true, immFmt := .u, aluOp := .passB, aluSrcB := .imm, resultSel := .alu}

def ctrlAuipc : Ctrl :=
  {regWrite := true, immFmt := .u, aluOp := .add, aluSrcA := .pc, aluSrcB := .imm,
    resultSel := .alu}

def ctrlJal : Ctrl :=
  {regWrite := true, jump := true, immFmt := .j, aluOp := .add, aluSrcA := .pc,
    aluSrcB := .imm, resultSel := .pc4}

def ctrlJalr : Ctrl :=
  {regWrite := true, jump := true, jalr := true, usesRs1 := true, immFmt := .i,
    aluOp := .add, aluSrcA := .rs1, aluSrcB := .imm, resultSel := .pc4}

def ctrlBranch : Ctrl :=
  {branch := true, usesRs1 := true, usesRs2 := true, immFmt := .b, aluOp := .add,
    aluSrcA := .pc, aluSrcB := .imm}

def ctrlLoad (f3 : BitVec 3) : Ctrl :=
  {regWrite := true, memRead := true, memOp := f3, usesRs1 := true, immFmt := .i,
    aluOp := .add, aluSrcB := .imm, resultSel := .mem}

def ctrlStore (f3 : BitVec 3) : Ctrl :=
  {memWrite := true, memOp := f3, usesRs1 := true, usesRs2 := true, immFmt := .s,
    aluOp := .add, aluSrcB := .imm}

def ctrlOpImm : Ctrl :=
  {regWrite := true, usesRs1 := true, immFmt := .i, aluSrcB := .imm, resultSel := .alu}

def ctrlOp : Ctrl :=
  {regWrite := true, usesRs1 := true, usesRs2 := true, aluSrcB := .rs2, resultSel := .alu}

def ctrlCsrReg : Ctrl :=
  {isCsr := true, regWrite := true, usesRs1 := true, immFmt := .i, resultSel := .csr}

def ctrlCsrImm : Ctrl :=
  {isCsr := true, regWrite := true, immFmt := .z, resultSel := .csr}

/-! The arms of the opcode case. -/

def decodeJalr (f3 : BitVec 3) : Ctrl :=
  if f3 = 0 then ctrlJalr else .illegal

def decodeBranch (f3 : BitVec 3) : Ctrl :=
  if f3 ≠ 2 ∧ f3 ≠ 3 then ctrlBranch else .illegal

def decodeLoad (f3 : BitVec 3) : Ctrl :=
  if f3 = f3Lb ∨ f3 = f3Lh ∨ f3 = f3Lw ∨ f3 = f3Lbu ∨ f3 = f3Lhu then ctrlLoad f3
  else .illegal

def decodeStore (f3 : BitVec 3) : Ctrl :=
  if f3 = f3Lb ∨ f3 = f3Lh ∨ f3 = f3Lw then ctrlStore f3 else .illegal

/-- The B immediate forms share `funct3` with the shifts and are looked up first. -/
def decodeOpImm (f7 : BitVec 7) (f3 : BitVec 3) (immRs2 : BitVec 5) : Ctrl :=
  let bm := bmOpI f7 f3 immRs2
  if bm ≠ .none then {ctrlOpImm with isBitmanip := true, bmOp := bm, aluOp := .add}
  else if f3 = 0 then {ctrlOpImm with aluOp := .add}
  else if f3 = 2 then {ctrlOpImm with aluOp := .slt}
  else if f3 = 3 then {ctrlOpImm with aluOp := .sltu}
  else if f3 = 4 then {ctrlOpImm with aluOp := .xor}
  else if f3 = 6 then {ctrlOpImm with aluOp := .or}
  else if f3 = 7 then {ctrlOpImm with aluOp := .and}
  else if f3 = 1 then {ctrlOpImm with aluOp := .sll, isIllegal := f7 != f7Base}
  else {ctrlOpImm with
    aluOp := if f7 = f7Alt then .sra else .srl
    isIllegal := !(f7 == f7Base || f7 == f7Alt)}

def decodeOp (f7 : BitVec 7) (f3 : BitVec 3) : Ctrl :=
  let bm := bmOpR f7 f3
  if f7 = f7Muldiv then {ctrlOp with isMuldiv := true, muldivOp := f3, aluOp := .add}
  else if bm ≠ .none then {ctrlOp with isBitmanip := true, bmOp := bm, aluOp := .add}
  else if f3 = 0 then {ctrlOp with
    aluOp := if f7 = f7Alt then .sub else .add
    isIllegal := !(f7 == f7Base || f7 == f7Alt)}
  else if f3 = 5 then {ctrlOp with
    aluOp := if f7 = f7Alt then .sra else .srl
    isIllegal := !(f7 == f7Base || f7 == f7Alt)}
  else if f3 = 1 then {ctrlOp with aluOp := .sll, isIllegal := f7 != f7Base}
  else if f3 = 2 then {ctrlOp with aluOp := .slt, isIllegal := f7 != f7Base}
  else if f3 = 3 then {ctrlOp with aluOp := .sltu, isIllegal := f7 != f7Base}
  else if f3 = 4 then {ctrlOp with aluOp := .xor, isIllegal := f7 != f7Base}
  else if f3 = 6 then {ctrlOp with aluOp := .or, isIllegal := f7 != f7Base}
  else {ctrlOp with aluOp := .and, isIllegal := f7 != f7Base}

/-- FENCE is a no-op whatever its fields; FENCE.I is not implemented. -/
def decodeMiscMem (f3 : BitVec 3) : Ctrl :=
  if f3 = 0 then {} else .illegal

def decodeSystem (insn : Word) : Ctrl :=
  let f3 := funct3 insn
  let f12 := funct12 insn
  if f3 = 0 then
    if rdField insn = 0 ∧ rs1Field insn = 0 then
      if f12 = f12Ecall then {isEcall := true}
      else if f12 = f12Ebreak then {isEbreak := true}
      else if f12 = f12Mret then {isMret := true}
      else if f12 = f12Wfi then {}
      else .illegal
    else .illegal
  else if f3 = 1 ∨ f3 = 2 ∨ f3 = 3 then ctrlCsrReg
  else if f3 = 5 ∨ f3 = 6 ∨ f3 = 7 then ctrlCsrImm
  else .illegal

def decodeArm (insn : Word) : Ctrl :=
  let op := opcode insn
  let f3 := funct3 insn
  let f7 := funct7 insn
  if op = opcLui then ctrlLui
  else if op = opcAuipc then ctrlAuipc
  else if op = opcJal then ctrlJal
  else if op = opcJalr then decodeJalr f3
  else if op = opcBranch then decodeBranch f3
  else if op = opcLoad then decodeLoad f3
  else if op = opcStore then decodeStore f3
  else if op = opcOpImm then decodeOpImm f7 f3 (rs2Field insn)
  else if op = opcOp then decodeOp f7 f3
  else if op = opcMiscMem then decodeMiscMem f3
  else if op = opcSystem then decodeSystem insn
  else .illegal

/-- The legality filter at the bottom of the decoder: an illegal word resets the
whole bundle. -/
def legalise (c : Ctrl) : Ctrl := if c.isIllegal then .illegal else c

/-- `rvntt_decode`. -/
def decode (insn : Word) : Ctrl := legalise (decodeArm insn)

/-- Every bundle the decoder can produce, with what it says about the word. -/
inductive Shape (insn : Word) : Ctrl → Prop where
  | illegal : Shape insn .illegal
  | lui : Shape insn ctrlLui
  | auipc : Shape insn ctrlAuipc
  | jal : opcode insn = opcJal → Shape insn ctrlJal
  | jalr : opcode insn = opcJalr → Shape insn ctrlJalr
  | branch : opcode insn = opcBranch → Shape insn ctrlBranch
  | load : Shape insn (ctrlLoad (funct3 insn))
  | store : Shape insn (ctrlStore (funct3 insn))
  | aluImm (op : AluOp) : Shape insn {ctrlOpImm with aluOp := op}
  | bmImm (bm : BmOp) : Shape insn {ctrlOpImm with isBitmanip := true, bmOp := bm}
  | aluReg (op : AluOp) : Shape insn {ctrlOp with aluOp := op}
  | bmReg (bm : BmOp) : Shape insn {ctrlOp with isBitmanip := true, bmOp := bm}
  | muldiv : opcode insn = opcOp → funct7 insn = f7Muldiv →
      Shape insn {ctrlOp with isMuldiv := true, muldivOp := funct3 insn}
  | nop : Shape insn {}
  | ecall : Shape insn {isEcall := true}
  | ebreak : Shape insn {isEbreak := true}
  | mret : Shape insn {isMret := true}
  | csrReg : insn.getLsbD 14 = false → Shape insn ctrlCsrReg
  | csrImm : insn.getLsbD 14 = true → Shape insn ctrlCsrImm

theorem shape_filtered_aluImm (insn : Word) (op : AluOp) (bad : Bool) :
    Shape insn (legalise {ctrlOpImm with aluOp := op, isIllegal := bad}) := by
  cases bad with
  | true => exact .illegal
  | false => exact .aluImm op

theorem shape_filtered_aluReg (insn : Word) (op : AluOp) (bad : Bool) :
    Shape insn (legalise {ctrlOp with aluOp := op, isIllegal := bad}) := by
  cases bad with
  | true => exact .illegal
  | false => exact .aluReg op

theorem Shape.ite {insn : Word} {p : Prop} [Decidable p] {a b : Ctrl}
    (ha : p → Shape insn (legalise a)) (hb : ¬p → Shape insn (legalise b)) :
    Shape insn (legalise (if p then a else b)) :=
  ite_of (fun c => Shape insn (legalise c)) ha hb

theorem shape_jalr (insn : Word) (f3 : BitVec 3) (ho : opcode insn = opcJalr) :
    Shape insn (legalise (decodeJalr f3)) :=
  .ite (fun _ => .jalr ho) fun _ => .illegal

theorem shape_opImm (insn : Word) (f7 : BitVec 7) (f3 : BitVec 3) (r : BitVec 5) :
    Shape insn (legalise (decodeOpImm f7 f3 r)) := by
  rw [decodeOpImm]
  refine .ite (fun _ => .bmImm _) fun _ => ?_
  iterate 7 refine .ite (fun _ => shape_filtered_aluImm insn _ _) fun _ => ?_
  exact shape_filtered_aluImm insn _ _

theorem shape_op (insn : Word) (ho : opcode insn = opcOp) :
    Shape insn (legalise (decodeOp (funct7 insn) (funct3 insn))) := by
  rw [decodeOp]
  refine .ite (fun hf => .muldiv ho hf) fun _ => ?_
  refine .ite (fun _ => .bmReg _) fun _ => ?_
  iterate 7 refine .ite (fun _ => shape_filtered_aluReg insn _ _) fun _ => ?_
  exact shape_filtered_aluReg insn _ _

theorem funct3_bit2 (insn : Word) : (funct3 insn).getLsbD 2 = insn.getLsbD 14 := by
  simp [funct3]

theorem shape_system (insn : Word) : Shape insn (legalise (decodeSystem insn)) := by
  have hbit := funct3_bit2 insn
  rw [decodeSystem]
  refine .ite (fun _ => .ite (fun _ => ?_) fun _ => .illegal) fun _ => ?_
  · refine .ite (fun _ => .ecall) fun _ => ?_
    refine .ite (fun _ => .ebreak) fun _ => ?_
    refine .ite (fun _ => .mret) fun _ => ?_
    exact .ite (fun _ => .nop) fun _ => .illegal
  refine .ite (fun hr => .csrReg ?_) fun _ => .ite (fun hi => .csrImm ?_) fun _ => .illegal
  · rw [← hbit]
    rcases hr with hr | hr | hr <;> rw [hr] <;> decide
  · rw [← hbit]
    rcases hi with hi | hi | hi <;> rw [hi] <;> decide

theorem decode_shape (insn : Word) : Shape insn (decode insn) := by
  rw [decode,decodeArm]
  refine .ite (fun _ => .lui) fun _ => ?_
  refine .ite (fun _ => .auipc) fun _ => ?_
  refine .ite (fun ho => .jal ho) fun _ => ?_
  refine .ite (fun ho => shape_jalr insn _ ho) fun _ => ?_
  refine .ite (fun ho => .ite (fun _ => .branch ho) fun _ => .illegal) fun _ => ?_
  refine .ite (fun _ => .ite (fun _ => .load) fun _ => .illegal) fun _ => ?_
  refine .ite (fun _ => .ite (fun _ => .store) fun _ => .illegal) fun _ => ?_
  refine .ite (fun _ => shape_opImm insn _ _ _) fun _ => ?_
  refine .ite (fun ho => shape_op insn ho) fun _ => ?_
  refine .ite (fun _ => .ite (fun _ => .nop) fun _ => .illegal) fun _ => ?_
  exact .ite (fun _ => shape_system insn) fun _ => .illegal

theorem Shape.memRead_eq {insn : Word} {c : Ctrl} (h : Shape insn c) (hm : c.memRead = true) :
    c = ctrlLoad (funct3 insn) := by
  cases h with
  | load => rfl
  | _ => cases hm

theorem Shape.memWrite_eq {insn : Word} {c : Ctrl} (h : Shape insn c) (hm : c.memWrite = true) :
    c = ctrlStore (funct3 insn) := by
  cases h with
  | store => rfl
  | _ => cases hm

theorem Shape.resultSel_ne_mem {insn : Word} {c : Ctrl} (h : Shape insn c)
    (hm : c.memRead = false) : c.resultSel ≠ .mem := by
  cases h with
  | load => cases hm
  | _ => exact fun h => by cases h

theorem Shape.muldiv_eq {insn : Word} {c : Ctrl} (h : Shape insn c) (hm : c.isMuldiv = true) :
    c = {ctrlOp with isMuldiv := true, muldivOp := funct3 insn} := by
  cases h with
  | muldiv => rfl
  | _ => cases hm

theorem Shape.mret_eq {insn : Word} {c : Ctrl} (h : Shape insn c) (hm : c.isMret = true) :
    c = {isMret := true} := by
  cases h with
  | mret => rfl
  | _ => cases hm

def Ctrl.transfer (c : Ctrl) : Bool := c.branch || c.jump

theorem Shape.transfer_eq {insn : Word} {c : Ctrl} (h : Shape insn c)
    (ht : c.transfer = true) : c = ctrlJal ∨ c = ctrlJalr ∨ c = ctrlBranch := by
  cases h with
  | jal => exact .inl rfl
  | jalr => exact .inr (.inl rfl)
  | branch => exact .inr (.inr rfl)
  | _ => cases ht

/-! ### Operands EX needs -/

/-- The operand is read by something other than the multi-cycle unit, which keeps
its own copy. -/
def Ctrl.needs1 (c : Ctrl) : Bool := c.usesRs1 && !c.isMuldiv
def Ctrl.needs2 (c : Ctrl) : Bool := c.usesRs2 && !c.isMuldiv

structure Reads (insn : Word) (c : Ctrl) : Prop where
  branch : c.branch = true → c.needs1 = true ∧ c.needs2 = true
  jalr : c.jalr = true → c.needs1 = true
  load : c.memRead = true → c.needs1 = true
  store : c.memWrite = true → c.needs1 = true ∧ c.needs2 = true
  csr : c.isCsr = true → insn.getLsbD 14 = false → c.needs1 = true
  csrPlain : c.isCsr = true → c.isBitmanip = false
  bmAdd : c.isBitmanip = true → c.aluOp = .add
  aluA : c.regWrite = true → c.isMuldiv = false → c.isCsr = false → c.resultSel ≠ .pc4 →
    c.aluOp ≠ .passB → c.aluSrcA = .rs1 → c.needs1 = true
  aluB : c.regWrite = true → c.isMuldiv = false → c.isCsr = false → c.resultSel ≠ .pc4 →
    c.aluSrcB = .rs2 → c.needs2 = true

theorem Shape.reads {insn : Word} {c : Ctrl} (h : Shape insn c) : Reads insn c where
  branch hb := by
    cases h with
    | branch => exact ⟨rfl,rfl⟩
    | _ => cases hb
  jalr hb := by
    cases h with
    | jalr => rfl
    | _ => cases hb
  load hb := by
    cases h with
    | load => rfl
    | _ => cases hb
  store hb := by
    cases h with
    | store => exact ⟨rfl,rfl⟩
    | _ => cases hb
  csr hb hi := by
    cases h with
    | csrReg => rfl
    | csrImm hi' => rw [hi'] at hi; cases hi
    | _ => cases hb
  csrPlain hb := by
    cases h with
    | csrReg => rfl
    | csrImm => rfl
    | _ => cases hb
  bmAdd hb := by
    cases h with
    | bmImm => rfl
    | bmReg => rfl
    | _ => cases hb
  aluA hw hm hc hp ho ha := by
    cases h with
    | load => rfl
    | aluImm => rfl
    | bmImm => rfl
    | aluReg => rfl
    | bmReg => rfl
    | jal => cases ha
    | jalr => exact absurd rfl hp
    | muldiv => cases hm
    | csrReg => cases hc
    | csrImm => cases hc
    | lui => exact absurd rfl ho
    | auipc => cases ha
    | _ => cases hw
  aluB hw hm hc hp hb := by
    cases h with
    | aluReg => rfl
    | bmReg => rfl
    | muldiv => cases hm
    | csrReg => cases hc
    | csrImm => cases hc
    | lui => cases hb
    | auipc => cases hb
    | jal => cases hb
    | jalr => cases hb
    | load => cases hb
    | aluImm => cases hb
    | bmImm => cases hb
    | _ => cases hw

theorem isMuldiv_iff (insn : Word) :
    (decode insn).isMuldiv = true ↔ opcode insn = opcOp ∧ funct7 insn = f7Muldiv := by
  constructor
  · intro h
    have hs := decode_shape insn
    generalize decode insn = c at h hs
    cases hs with
    | muldiv ho hf => exact ⟨ho,hf⟩
    | _ => cases h
  · rintro ⟨ho,hf⟩
    have ha : decodeArm insn = decodeOp (funct7 insn) (funct3 insn) := by
      unfold decodeArm
      simp only [ho]
      rfl
    rw [decode,ha,hf,decodeOp,if_pos rfl]
    rfl

/-! ### CSR instructions -/

theorem isCsr_legalise {c : Ctrl} (h : (legalise c).isCsr = true) : c.isCsr = true := by
  unfold legalise at h
  split at h
  · cases h
  · exact h

theorem isCsr_opImm (f7 : BitVec 7) (f3 : BitVec 3) (r : BitVec 5) :
    (decodeOpImm f7 f3 r).isCsr = false := by
  simp only [decodeOpImm,apply_ite Ctrl.isCsr,ctrlOpImm,ite_self]

theorem isCsr_op (f7 : BitVec 7) (f3 : BitVec 3) : (decodeOp f7 f3).isCsr = false := by
  simp only [decodeOp,apply_ite Ctrl.isCsr,ctrlOp,ite_self]

theorem isCsr_csrOp {insn : Word} (h : (decode insn).isCsr = true) :
    insn.extractLsb' 12 2 ≠ 0 := by
  have h := isCsr_legalise h
  simp only [decodeArm,decodeJalr,decodeBranch,decodeLoad,decodeStore,decodeMiscMem,decodeSystem,
    apply_ite Ctrl.isCsr,isCsr_opImm,isCsr_op,ctrlLui,ctrlAuipc,ctrlJal,ctrlJalr,ctrlBranch,
    ctrlLoad,ctrlStore,Ctrl.illegal,ite_self] at h
  have hf : insn.extractLsb' 12 2 = (funct3 insn).extractLsb' 0 2 := by
    refine BitVec.eq_of_getLsbD_eq fun i hi => ?_
    simp [funct3,hi,show i < 3 by omega]
  intro h0
  rw [hf] at h0
  have : ∀ f3 : BitVec 3, f3.extractLsb' 0 2 = 0 → f3 = 0 ∨ f3 = 4 := by decide
  rcases this _ h0 with h3 | h3 <;> simp [h3] at h

/-! ### Stores -/

theorem memWrite_opImm (f7 : BitVec 7) (f3 : BitVec 3) (r : BitVec 5) :
    (decodeOpImm f7 f3 r).memWrite = false := by
  simp only [decodeOpImm,apply_ite Ctrl.memWrite,ctrlOpImm,ite_self]

theorem memWrite_op (f7 : BitVec 7) (f3 : BitVec 3) : (decodeOp f7 f3).memWrite = false := by
  simp only [decodeOp,apply_ite Ctrl.memWrite,ctrlOp,ite_self]

theorem memWrite_width {insn : Word} (h : (decode insn).memWrite = true) :
    funct3 insn = f3Lb ∨ funct3 insn = f3Lh ∨ funct3 insn = f3Lw := by
  refine Decidable.byContradiction fun hw => ?_
  have ha : (decodeArm insn).memWrite = false := by
    simp only [decodeArm,decodeJalr,decodeBranch,decodeLoad,decodeStore,decodeMiscMem,
      decodeSystem,apply_ite Ctrl.memWrite,memWrite_opImm,memWrite_op,ctrlLui,ctrlAuipc,ctrlJal,
      ctrlJalr,ctrlBranch,ctrlLoad,ctrlCsrReg,ctrlCsrImm,Ctrl.illegal,hw,if_false,ite_self]
  rw [decode,legalise] at h
  split at h
  · cases h
  · rw [ha] at h
    cases h

end Rvntt
