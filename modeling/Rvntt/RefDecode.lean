import Mathlib.Data.Nat.Bitwise
import Rvntt.Decode
set_option autoImplicit false

/-!
`model/rv32i_ref.py`, the decoder of the golden model. Its bundle has the fields of
`ctrl_t`, and its enumerations have the package's members in the package's order, so
they are the same types here.
-/

namespace Rvntt.Ref

/-- `word[hi:lo]`. -/
def bits (word : Word) (hi lo : Nat) : BitVec (hi-lo+1) := word.extractLsb' lo (hi-lo+1)

structure Regs where
  rd : BitVec 5
  rs1 : BitVec 5
  rs2 : BitVec 5
  deriving DecidableEq, Repr

/-- `_BM_OP_R`. -/
def bmOpRTable : List ((BitVec 7 × BitVec 3) × BmOp) :=
  [((f7ZbaShadd,0b010),.sh1add),((f7ZbaShadd,0b100),.sh2add),((f7ZbaShadd,0b110),.sh3add),
    ((f7Alt,0b100),.xnor),((f7Alt,0b110),.orn),((f7Alt,0b111),.andn),
    ((f7ZbbMinmax,0b100),.min),((f7ZbbMinmax,0b101),.minu),((f7ZbbMinmax,0b110),.max),
    ((f7ZbbMinmax,0b111),.maxu),
    ((f7ZbbRot,0b001),.rol),((f7ZbbRot,0b101),.ror),
    ((f7ZbsBset,0b001),.bset),((f7ZbsBclr,0b001),.bclr),((f7ZbsBclr,0b101),.bext),
    ((f7ZbsBinv,0b001),.binv),
    ((f7ZbkbPack,0b100),.pack),((f7ZbkbPack,0b111),.packh),
    ((f7Zicond,0b101),.czeqz),((f7Zicond,0b111),.cznez)]

/-- `_BM_UNARY`. -/
def bmUnaryTable : List (BitVec 5 × BmOp) :=
  [(0b00000,.clz),(0b00001,.ctz),(0b00010,.cpop),(0b00100,.sextb),(0b00101,.sexth)]

def bmOpI (funct7 : BitVec 7) (funct3 : BitVec 3) (rs2 : BitVec 5) : Option BmOp :=
  if funct7 = f7ZbbRot ∧ funct3 = 0b001 then bmUnaryTable.lookup rs2
  else if funct7 = f7ZbbRot ∧ funct3 = 0b101 then some .ror
  else if funct7 = f7ZbsBset ∧ funct3 = 0b001 then some .bset
  else if funct7 = f7ZbsBset ∧ funct3 = 0b101 then if rs2 = rs2Orcb then some .orcb else none
  else if funct7 = f7ZbsBclr ∧ funct3 = 0b001 then some .bclr
  else if funct7 = f7ZbsBclr ∧ funct3 = 0b101 then some .bext
  else if funct7 = f7ZbsBinv ∧ funct3 = 0b001 then some .binv
  else if funct7 = f7ZbsBinv ∧ funct3 = 0b101 then
    if rs2 = rs2Rev8 then some .rev8
    else if rs2 = rs2Brev8 then some .brev8
    else none
  else if funct7 = f7ZbkbPack ∧ funct3 = 0b001 then if rs2 = rs2Zipunz then some .zip else none
  else if funct7 = f7ZbkbPack ∧ funct3 = 0b101 then if rs2 = rs2Zipunz then some .unzip else none
  else none

/-- `_ALU_BY_F3`. -/
def aluByF3Table : List (BitVec 3 × AluOp) :=
  [(0b000,.add),(0b010,.slt),(0b011,.sltu),(0b100,.xor),(0b110,.or),(0b111,.and)]

def blank : Ctrl := {isIllegal := true}

/-! The arms that look at more than the opcode. -/

def branchArm (funct3 : BitVec 3) : Ctrl :=
  if funct3 ∉ [0b010,0b011] then
    {blank with branch := true, usesRs1 := true, usesRs2 := true, immFmt := .b,
                aluOp := .add, aluSrcA := .pc, aluSrcB := .imm, isIllegal := false}
  else blank

def loadArm (funct3 : BitVec 3) : Ctrl :=
  if funct3 ∈ [0b000,0b001,0b010,0b100,0b101] then
    {blank with regWrite := true, memRead := true, memOp := funct3, usesRs1 := true,
                immFmt := .i, aluOp := .add, aluSrcB := .imm, resultSel := .mem,
                isIllegal := false}
  else blank

def storeArm (funct3 : BitVec 3) : Ctrl :=
  if funct3 ∈ [0b000,0b001,0b010] then
    {blank with memWrite := true, memOp := funct3, usesRs1 := true, usesRs2 := true,
                immFmt := .s, aluOp := .add, aluSrcB := .imm, isIllegal := false}
  else blank

def opImmArm (funct7 : BitVec 7) (funct3 : BitVec 3) (immRs2 : BitVec 5) : Ctrl :=
  let c : Ctrl := {blank with
    regWrite := true, usesRs1 := true, immFmt := .i, aluSrcB := .imm, resultSel := .alu}
  match bmOpI funct7 funct3 immRs2 with
  | some bm => {c with isBitmanip := true, bmOp := bm, aluOp := .add, isIllegal := false}
  | none =>
    match aluByF3Table.lookup funct3 with
    | some op => {c with aluOp := op, isIllegal := false}
    | none =>
      if funct3 = 0b001 then {c with aluOp := .sll, isIllegal := !(funct7 == f7Base)}
      else {c with
        aluOp := if funct7 = f7Alt then .sra else .srl
        isIllegal := !(funct7 == f7Base || funct7 == f7Alt)}

def opArm (funct7 : BitVec 7) (funct3 : BitVec 3) : Ctrl :=
  let c : Ctrl := {blank with
    regWrite := true, usesRs1 := true, usesRs2 := true, aluSrcB := .rs2, resultSel := .alu}
  if funct7 = f7Muldiv then
    {c with isMuldiv := true, muldivOp := funct3, aluOp := .add, isIllegal := false}
  else match bmOpRTable.lookup (funct7,funct3) with
  | some bm => {c with isBitmanip := true, bmOp := bm, aluOp := .add, isIllegal := false}
  | none =>
    if funct3 = 0b000 then {c with
      aluOp := if funct7 = f7Alt then .sub else .add
      isIllegal := !(funct7 == f7Base || funct7 == f7Alt)}
    else if funct3 = 0b101 then {c with
      aluOp := if funct7 = f7Alt then .sra else .srl
      isIllegal := !(funct7 == f7Base || funct7 == f7Alt)}
    else if funct3 = 0b001 then {c with aluOp := .sll, isIllegal := !(funct7 == f7Base)}
    else {c with
      -- every remaining `funct3` is in the table
      aluOp := (aluByF3Table.lookup funct3).getD .add
      isIllegal := !(funct7 == f7Base)}

def systemArm (funct3 : BitVec 3) (funct12 : BitVec 12) (regs : Regs) : Ctrl :=
  if funct3 = 0b000 then
    if regs.rd = 0 ∧ regs.rs1 = 0 then
      if funct12 = 0x000 then {blank with isEcall := true, isIllegal := false}
      else if funct12 = 0x001 then {blank with isEbreak := true, isIllegal := false}
      else if funct12 = 0x302 then {blank with isMret := true, isIllegal := false}
      else if funct12 = 0x105 then {blank with isIllegal := false}
      else blank
    else blank
  else if funct3 ∈ [0b001,0b010,0b011] then
    {blank with isCsr := true, regWrite := true, usesRs1 := true, immFmt := .i,
                resultSel := .csr, isIllegal := false}
  else if funct3 ∈ [0b101,0b110,0b111] then
    {blank with isCsr := true, regWrite := true, immFmt := .z, resultSel := .csr,
                isIllegal := false}
  else blank

def arm (insn : Word) (regs : Regs) : Ctrl :=
  let opcode : BitVec 7 := bits insn 6 0
  let funct3 : BitVec 3 := bits insn 14 12
  let funct7 : BitVec 7 := bits insn 31 25
  let funct12 : BitVec 12 := bits insn 31 20
  let immRs2 : BitVec 5 := bits insn 24 20
  if opcode = opcLui then
    {blank with regWrite := true, immFmt := .u, aluOp := .passB, aluSrcB := .imm,
                resultSel := .alu, isIllegal := false}
  else if opcode = opcAuipc then
    {blank with regWrite := true, immFmt := .u, aluOp := .add, aluSrcA := .pc,
                aluSrcB := .imm, resultSel := .alu, isIllegal := false}
  else if opcode = opcJal then
    {blank with regWrite := true, jump := true, immFmt := .j, aluOp := .add, aluSrcA := .pc,
                aluSrcB := .imm, resultSel := .pc4, isIllegal := false}
  else if opcode = opcJalr then
    if funct3 = 0 then
      {blank with regWrite := true, jump := true, jalr := true, usesRs1 := true, immFmt := .i,
                  aluOp := .add, aluSrcA := .rs1, aluSrcB := .imm, resultSel := .pc4,
                  isIllegal := false}
    else blank
  else if opcode = opcBranch then branchArm funct3
  else if opcode = opcLoad then loadArm funct3
  else if opcode = opcStore then storeArm funct3
  else if opcode = opcOpImm then opImmArm funct7 funct3 immRs2
  else if opcode = opcOp then opArm funct7 funct3
  else if opcode = opcMiscMem then
    if funct3 = 0b000 then {blank with isIllegal := false} else blank
  else if opcode = opcSystem then systemArm funct3 funct12 regs
  else blank

def regsOf (insn : Word) : Regs := ⟨bits insn 11 7,bits insn 19 15,bits insn 24 20⟩

/-- An illegal instruction has no architectural effect. -/
def decode (insn : Word) : Ctrl × Regs :=
  let regs := regsOf insn
  let c := arm insn regs
  (if c.isIllegal then blank else c,regs)

/-! ### Agreement with the core's decoder -/

/-- The model's `None` is the core's no-operation member. -/
def someOp (b : BmOp) : Option BmOp := if b = .none then none else some b

theorem bmOpRTable_eq : ∀ f7 f3, bmOpRTable.lookup (f7,f3) = someOp (bmOpR f7 f3) := by
  decide +kernel

theorem bmUnaryTable_eq : ∀ r, bmUnaryTable.lookup r = someOp
    (if r = rs2Clz then .clz
    else if r = rs2Ctz then .ctz
    else if r = rs2Cpop then .cpop
    else if r = rs2Sextb then .sextb
    else if r = rs2Sexth then .sexth
    else .none) := by
  decide

theorem bmOpI_eq (f7 : BitVec 7) (f3 : BitVec 3) (r : BitVec 5) :
    bmOpI f7 f3 r = someOp (Rvntt.bmOpI f7 f3 r) := by
  rw [Rvntt.bmOpI,apply_ite someOp,← bmUnaryTable_eq]
  simp only [apply_ite someOp]
  rfl

theorem funct3_cases : ∀ f : BitVec 3,
    f = 0 ∨ f = 1 ∨ f = 2 ∨ f = 3 ∨ f = 4 ∨ f = 5 ∨ f = 6 ∨ f = 7 := by
  decide

theorem branchArm_eq : ∀ f3, legalise (branchArm f3) = legalise (decodeBranch f3) := by decide

theorem loadArm_eq : ∀ f3, legalise (loadArm f3) = legalise (decodeLoad f3) := by decide

theorem storeArm_eq : ∀ f3, legalise (storeArm f3) = legalise (decodeStore f3) := by decide

theorem opImmArm_eq (f7 : BitVec 7) (f3 : BitVec 3) (r : BitVec 5) :
    legalise (opImmArm f7 f3 r) = legalise (decodeOpImm f7 f3 r) := by
  unfold opImmArm decodeOpImm
  rw [bmOpI_eq,someOp]
  by_cases hb : Rvntt.bmOpI f7 f3 r = .none
  · simp only [hb,if_true,ne_eq,not_true_eq_false,if_false]
    rcases funct3_cases f3 with rfl | rfl | rfl | rfl | rfl | rfl | rfl | rfl
    all_goals rfl
  · simp only [hb,if_false,ne_eq,not_false_eq_true,if_true]
    rfl

theorem opArm_eq (f7 : BitVec 7) (f3 : BitVec 3) :
    legalise (opArm f7 f3) = legalise (decodeOp f7 f3) := by
  unfold opArm decodeOp
  rw [bmOpRTable_eq,someOp]
  by_cases hm : f7 = f7Muldiv
  · simp only [hm,if_true]
    rfl
  by_cases hb : bmOpR f7 f3 = .none
  · simp only [hb,hm,if_true,ne_eq,not_true_eq_false,if_false]
    rcases funct3_cases f3 with rfl | rfl | rfl | rfl | rfl | rfl | rfl | rfl
    all_goals rfl
  · simp only [hb,hm,if_false,ne_eq,not_false_eq_true,if_true]
    rfl

theorem systemArm_eq (insn : Word) :
    legalise (systemArm (funct3 insn) (funct12 insn) (regsOf insn)) =
      legalise (decodeSystem insn) := by
  unfold systemArm decodeSystem
  simp only
  generalize funct3 insn = f3
  rcases funct3_cases f3 with rfl | rfl | rfl | rfl | rfl | rfl | rfl | rfl
  all_goals rfl

theorem legalise_ite {c : Prop} [Decidable c] {a b a' b' : Ctrl} (ha : legalise a = legalise a')
    (hb : legalise b = legalise b') : legalise (if c then a else b) =
      legalise (if c then a' else b') := by
  by_cases h : c
  · rw [if_pos h,if_pos h,ha]
  · rw [if_neg h,if_neg h,hb]

theorem arm_eq (insn : Word) : legalise (arm insn (regsOf insn)) = legalise (decodeArm insn) := by
  unfold arm decodeArm
  simp only
  refine legalise_ite ?_ (legalise_ite ?_ (legalise_ite ?_ (legalise_ite ?_ (legalise_ite ?_
    (legalise_ite ?_ (legalise_ite ?_ (legalise_ite ?_ (legalise_ite ?_ (legalise_ite ?_
    (legalise_ite ?_ ?_))))))))))
  · rfl
  · rfl
  · rfl
  · exact legalise_ite rfl rfl
  · exact branchArm_eq _
  · exact loadArm_eq _
  · exact storeArm_eq _
  · exact opImmArm_eq _ _ _
  · exact opArm_eq _ _
  · exact legalise_ite rfl rfl
  · exact systemArm_eq insn
  · rfl

theorem decode_eq (insn : Word) :
    decode insn = (Rvntt.decode insn,⟨rdField insn,rs1Field insn,rs2Field insn⟩) :=
  Prod.ext (arm_eq insn) rfl

/-! ### Immediates -/

def u32 (x : Int) : Word := BitVec.ofInt 32 x

def sext (value width : Nat) : Int :=
  let sign := 1 <<< (width-1)
  (value &&& (sign-1) : Nat)-(value &&& sign : Nat)

def imm (insn : Word) (fmt : ImmFmt) : Word :=
  match fmt with
  | .i => u32 (sext (bits insn 31 20).toNat 12)
  | .s => u32 (sext ((bits insn 31 25).toNat <<< 5 ||| (bits insn 11 7).toNat) 12)
  | .b => u32 (sext ((bits insn 31 31).toNat <<< 12 ||| (bits insn 7 7).toNat <<< 11 |||
      (bits insn 30 25).toNat <<< 5 ||| (bits insn 11 8).toNat <<< 1) 13)
  | .u => u32 ((bits insn 31 12).toNat <<< 12 : Nat)
  | .j => u32 (sext ((bits insn 31 31).toNat <<< 20 ||| (bits insn 19 12).toNat <<< 12 |||
      (bits insn 20 20).toNat <<< 11 ||| (bits insn 30 21).toNat <<< 1) 21)
  | .z => u32 (bits insn 19 15).toNat
  | .none => 0

theorem sext_toNat {n : Nat} (v : BitVec (n+1)) : sext v.toNat (n+1) = v.toInt := by
  have hlt := v.isLt
  have hbit : v.toNat.testBit n = v.msb := by
    rw [BitVec.msb_eq_getLsbD_last,BitVec.getLsbD]
    rfl
  change ((v.toNat &&& (1 <<< n-1) : Nat) : Int)-(v.toNat &&& 1 <<< n : Nat) = _
  rw [Nat.one_shiftLeft,Nat.and_two_pow_sub_one_eq_mod,Nat.and_two_pow,hbit,
    BitVec.toInt_eq_msb_cond]
  have hmsb := BitVec.msb_eq_decide v
  rw [Nat.add_sub_cancel] at hmsb
  rw [Nat.pow_succ] at hlt
  rw [Nat.pow_succ]
  cases hm : v.msb with
  | true =>
    rw [hm,eq_comm,decide_eq_true_iff] at hmsb
    rw [Nat.mod_eq_sub_mod hmsb,Nat.mod_eq_of_lt (by omega),if_pos rfl,Bool.toNat_true]
    omega
  | false =>
    rw [hm,eq_comm,decide_eq_false_iff_not] at hmsb
    rw [Nat.mod_eq_of_lt (by omega),if_neg (by simp),Bool.toNat_false]
    omega

theorem u32_sext {n : Nat} (v : BitVec (n+1)) :
    u32 (sext v.toNat (n+1)) = v.signExtend 32 := by
  rw [sext_toNat]
  rfl

theorem imm_eq (insn : Word) (fmt : ImmFmt) : imm insn fmt = immgen insn fmt := by
  cases fmt with
  | i => exact u32_sext _
  | s =>
    rw [immgen,← u32_sext,BitVec.toNat_append]
    rfl
  | b =>
    rw [immgen,← u32_sext]
    simp only [BitVec.toNat_append,Nat.shiftLeft_or_distrib,← Nat.shiftLeft_add]
    rw [show BitVec.toNat (0 : BitVec 1) = 0 from rfl,Nat.or_zero]
    rfl
  | j =>
    rw [immgen,← u32_sext]
    simp only [BitVec.toNat_append,Nat.shiftLeft_or_distrib,← Nat.shiftLeft_add]
    rw [show BitVec.toNat (0 : BitVec 1) = 0 from rfl,Nat.or_zero]
    rfl
  | u =>
    have hlt : (bits insn 31 12).toNat < 2^20 := (bits insn 31 12).isLt
    refine BitVec.eq_of_toNat_eq ?_
    rw [imm,u32,BitVec.ofInt_natCast,BitVec.toNat_ofNat,immgen,BitVec.toNat_append,
      show BitVec.toNat (0 : BitVec 12) = 0 from rfl,Nat.or_zero]
    refine Nat.mod_eq_of_lt ?_
    rw [Nat.shiftLeft_eq]
    omega
  | z =>
    rw [immgen,imm,u32,BitVec.ofInt_natCast,BitVec.ofNat_toNat]
    rfl
  | none => rfl

/-- The golden model and the core read every word alike, fields, registers and immediate;
an illegal one gives both the reset bundle. -/
theorem decode_imm_agree (insn : Word) :
    decode insn = (Rvntt.decode insn,⟨rdField insn,rs1Field insn,rs2Field insn⟩) ∧
    imm insn (decode insn).1.immFmt = immgen insn (Rvntt.decode insn).immFmt ∧
    ((Rvntt.decode insn).isIllegal = true →
      Rvntt.decode insn = .illegal ∧ (decode insn).1 = blank) := by
  refine ⟨decode_eq insn,?_,fun h => ?_⟩
  · rw [imm_eq,decode_eq]
  · have hi : Rvntt.decode insn = .illegal := by
      rw [Rvntt.decode,legalise] at h ⊢
      split at h
      · rw [if_pos ‹_›]
      · rename_i hn
        exact absurd h hn
    rw [decode_eq]
    exact ⟨hi,hi⟩

end Rvntt.Ref
