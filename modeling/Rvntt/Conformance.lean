import Rvntt.IsaDecode
import Rvntt.MuldivRuns
import Rvntt.Sequential
set_option autoImplicit false

/-!
One instruction through decoder, immediate generator, operand selection, the units of EX
and its two address adders, against the specification.
-/

namespace Rvntt

open Isa

def stage (w pc rs1 rs2 : Word) (csr : Csr.State) (seedRdata : Word) : Ex where
  q := Seq.decoded pc w
  rs1Fwd := rs1
  rs2Fwd := rs2
  csr := csr
  seedRdata := seedRdata

def portWord (mem : Word → BitVec 8) (a : Word) : Word :=
  let base := a.extractLsb' 2 30 ++ (0 : BitVec 2)
  mem (base+3) ++ mem (base+2) ++ mem (base+1) ++ mem base

def outcome (x : Ex) (mem : Word → BitVec 8) : Outcome where
  trap := x.trapInfo
  dest :=
    if x.trap || !x.q.ctrl.regWrite then none
    else some (x.q.rdAddr,(x.latch (Muldiv.compute x.q.ctrl.muldivOp x.rs1Fwd x.rs2Fwd)).result
      (portWord mem x.memAddr))
  addr := if x.q.ctrl.memRead || x.q.ctrl.memWrite then some x.memAddr else none
  next := x.redirectTarget

def envOf (x : Ex) (mem : Word → BitVec 8) : Env where
  pc := x.q.pc
  rs1 := x.rs1Fwd
  rs2 := x.rs2Fwd
  mem := mem
  mtvec := Csr.mtvecO x.csr.toArch
  mepc := Csr.mepcO x.csr.toArch

/-! ### Kinds of instruction -/

structure Plain (c : Ctrl) : Prop where
  illegal : c.isIllegal = false
  csr : c.isCsr = false
  ecall : c.isEcall = false
  ebreak : c.isEbreak = false
  mret : c.isMret = false

structure Quiet (c : Ctrl) : Prop extends Plain c where
  branch : c.branch = false
  jump : c.jump = false
  memRead : c.memRead = false
  memWrite : c.memWrite = false

variable {x : Ex} {mem : Word → BitVec 8}

theorem Plain.steps (h : Plain x.q.ctrl) (hx : x.ctrlXfer = false) (hr : x.q.ctrl.memRead = false)
    (hw : x.q.ctrl.memWrite = false) : x.trapInfo = none ∧ x.redirectTarget = x.q.pc+4 := by
  have ht : x.trapInfo = none := by
    simp [Ex.trapInfo,h.illegal,h.csr,h.ecall,h.ebreak,Ex.targetMisaligned,hx,hr,hw]
  have hn : x.trap = false := by rw [Ex.trap,ht]; rfl
  have hm : x.mret = false := by simp [Ex.mret,h.mret]
  refine ⟨ht,?_⟩
  rw [Ex.redirectTarget,hn,hm,hx]
  rfl

theorem outcome_nop (h : Plain x.q.ctrl) (hx : x.ctrlXfer = false)
    (hr : x.q.ctrl.memRead = false) (hw : x.q.ctrl.memWrite = false)
    (hg : x.q.ctrl.regWrite = false) : outcome x mem = {next := x.q.pc+4} := by
  obtain ⟨ht,hn⟩ := h.steps hx hr hw
  rw [outcome,ht,hn,hg,hr,hw]
  simp

theorem Quiet.ctrlXfer (h : Quiet x.q.ctrl) : x.ctrlXfer = false := by
  simp [Ex.ctrlXfer,h.branch,h.jump]

theorem outcome_compute (h : Quiet x.q.ctrl) (hw : x.q.ctrl.regWrite = true)
    (hs : x.q.ctrl.resultSel = .alu) {v : Word}
    (hv : x.result (Muldiv.compute x.q.ctrl.muldivOp x.rs1Fwd x.rs2Fwd) = v) :
    outcome x mem = compute (envOf x mem) x.q.rdAddr v := by
  obtain ⟨ht,hn⟩ := h.toPlain.steps h.ctrlXfer h.memRead h.memWrite
  have hr : x.trap = false := by rw [Ex.trap,ht]; rfl
  rw [outcome,ht,hn,hr,hw,h.memRead,h.memWrite,compute]
  simp [ExMem.result,Ex.latch,hs,hv,envOf]

theorem outcome_transfer (hv : x.q.valid = true) (h : Plain x.q.ctrl)
    (hr : x.q.ctrl.memRead = false) (hw : x.q.ctrl.memWrite = false)
    (hx : x.ctrlXfer = true) (hp : x.q.ctrl.regWrite = true → x.q.ctrl.resultSel = .pc4) :
    outcome x mem = transfer (envOf x mem) x.jumpTarget
      (if x.q.ctrl.regWrite then some (x.q.rdAddr,x.q.pc+4) else none) := by
  have hm : x.mret = false := by simp [Ex.mret,h.mret]
  have ht : x.trapInfo = if fetchMisaligned x.jumpTarget then some (0,x.jumpTarget) else none := by
    simp only [Ex.trapInfo,hv,h.illegal,h.csr,h.ecall,h.ebreak,Ex.targetMisaligned,hx,hr,hw,
      fetchMisaligned,Bool.true_and,Bool.false_and,Bool.or_false,Bool.false_eq_true,if_true,
      if_false]
    rfl
  rw [outcome,ht,Ex.redirectTarget,Ex.trap,ht,hm,hx,hr,hw,transfer]
  cases fetchMisaligned x.jumpTarget with
  | true => rfl
  | false =>
    cases hg : x.q.ctrl.regWrite with
    | false => rfl
    | true => simp [ExMem.result,Ex.latch,hp hg,Ex.pcPlus4]

/-! ### Loads and stores -/

theorem misaligned_iff {size : Nat} (hs : (size = 1 ∧ (x.q.ctrl.memOp = 0 ∨ x.q.ctrl.memOp = 4)) ∨
    (size = 2 ∧ (x.q.ctrl.memOp = 1 ∨ x.q.ctrl.memOp = 5)) ∨ (size = 4 ∧ x.q.ctrl.memOp = 2)) :
    x.addrMisaligned = decide (x.memAddr.toNat % size ≠ 0) := by
  have h1 : x.memAddr.getLsbD 0 = decide (x.memAddr.toNat % 2 ≠ 0) := by
    rw [BitVec.getLsbD,Nat.testBit_zero,Bool.eq_iff_iff]
    simp
  have h2 : (x.memAddr.extractLsb' 0 2 != 0) = decide (x.memAddr.toNat % 4 ≠ 0) := by
    rw [Bool.eq_iff_iff,bne_iff_ne,decide_eq_true_iff,ne_eq,ne_eq,not_iff_not]
    rw [← BitVec.toNat_inj,low_toNat]
    rfl
  rcases hs with ⟨rfl,h | h⟩ | ⟨rfl,h | h⟩ | ⟨rfl,h⟩
  · simp [Ex.addrMisaligned,h,f3Lh,f3Lhu,f3Lw,Nat.mod_one]
  · simp [Ex.addrMisaligned,h,f3Lh,f3Lhu,f3Lw,Nat.mod_one]
  · rw [Ex.addrMisaligned,h,if_pos (by decide)]
    exact h1
  · rw [Ex.addrMisaligned,h,if_pos (by decide)]
    exact h1
  · rw [Ex.addrMisaligned,h,if_neg (by decide),if_pos (by decide)]
    exact h2

theorem outcome_access {cause : BitVec 5} {size : Nat} {dest : Option (BitVec 5 × Word)}
    (hv : x.q.valid = true) (h : Plain x.q.ctrl) (hb : x.q.ctrl.branch = false)
    (hj : x.q.ctrl.jump = false)
    (hk : (x.q.ctrl.memRead = true ∧ x.q.ctrl.memWrite = false ∧ cause = 4) ∨
      (x.q.ctrl.memRead = false ∧ x.q.ctrl.memWrite = true ∧ cause = 6))
    (hm : x.addrMisaligned = decide (x.memAddr.toNat % size ≠ 0))
    (hd : x.memAddr.toNat % size = 0 → (if x.q.ctrl.regWrite then
      some (x.q.rdAddr,(x.latch (Muldiv.compute x.q.ctrl.muldivOp x.rs1Fwd x.rs2Fwd)).result
        (portWord mem x.memAddr)) else none) = dest) :
    outcome x mem = access (envOf x mem) cause size x.memAddr dest := by
  have hx : x.ctrlXfer = false := by simp [Ex.ctrlXfer,hb,hj]
  have hr : x.mret = false := by simp [Ex.mret,h.mret]
  have ht : x.trapInfo = if x.memAddr.toNat % size ≠ 0 then some (cause,x.memAddr) else none := by
    rcases hk with ⟨h1,h2,rfl⟩ | ⟨h1,h2,rfl⟩
    · simp [Ex.trapInfo,hv,h.illegal,h.csr,h.ecall,h.ebreak,Ex.targetMisaligned,hx,h1,h2,hm]
    · simp [Ex.trapInfo,hv,h.illegal,h.csr,h.ecall,h.ebreak,Ex.targetMisaligned,hx,h1,h2,hm]
  have ha : (x.q.ctrl.memRead || x.q.ctrl.memWrite) = true := by
    rcases hk with ⟨h1,h2,_⟩ | ⟨h1,h2,_⟩ <;> rw [h1,h2] <;> rfl
  rw [outcome,ht,Ex.redirectTarget,Ex.trap,ht,hr,hx,ha,access]
  by_cases hz : x.memAddr.toNat % size = 0
  · rw [← hd hz]
    simp only [hz,ne_eq,not_true_eq_false,if_false]
    cases x.q.ctrl.regWrite <;> rfl
  · simp only [ne_eq,hz,not_false_eq_true,if_true]
    rfl

/-! The aligned word, byte by byte. -/

theorem base_toNat (a : Word) :
    (a.extractLsb' 2 30 ++ (0 : BitVec 2)).toNat = 4*(a.toNat/4) := by
  have h := Bits.append_toNat (a.extractLsb' 2 30) (0 : BitVec 2)
  have hlt := a.isLt
  rw [Bits.extract_toNat] at h
  have hd : a.toNat/2^2 % 2^30 = a.toNat/4 := Nat.mod_eq_of_lt (by omega)
  rw [hd] at h
  exact h

theorem base_add (a : Word) {k n : Nat} (h : a.toNat % 4+n = k) :
    a.extractLsb' 2 30 ++ (0 : BitVec 2)+BitVec.ofNat 32 k = a+BitVec.ofNat 32 n := by
  have hb := base_toNat a
  refine BitVec.eq_of_toNat_eq ?_
  have e : (a.extractLsb' 2 30 ++ (0 : BitVec 2)+BitVec.ofNat 32 k).toNat =
      ((a.extractLsb' 2 30 ++ (0 : BitVec 2)).toNat+(BitVec.ofNat 32 k).toNat) % 2^32 :=
    BitVec.toNat_add _ _
  rw [e,hb,BitVec.toNat_add,BitVec.toNat_ofNat,BitVec.toNat_ofNat]
  omega

theorem portWord_byte (mem : Word → BitVec 8) (a : Word) {k n : Nat}
    (h : a.toNat % 4+n = k) (hk : k < 4) :
    (portWord mem a).extractLsb' (8*k) 8 = mem (a+BitVec.ofNat 32 n) := by
  rw [← base_add a h]
  have hl := @Bits.extract_low
  have hh := @Bits.extract_high
  rcases (by omega : k = 0 ∨ k = 1 ∨ k = 2 ∨ k = 3) with rfl | rfl | rfl | rfl
  · refine (hl _ _).trans ?_
    rw [BitVec.add_zero]
  · exact (hh _ _ 0 8).trans (hl _ _)
  · exact (hh _ _ 8 8).trans ((hh _ _ 0 8).trans (hl _ _))
  · exact (hh _ _ 16 8).trans ((hh _ _ 8 8).trans ((hh _ _ 0 8).trans BitVec.extractLsb'_eq_self))

theorem portWord_half (mem : Word → BitVec 8) (a : Word) {k : Nat} (h : a.toNat % 4 = k)
    (hk : k+1 < 4) :
    (portWord mem a).extractLsb' (8*k) 16 = mem (a+1) ++ mem a := by
  have h0 := portWord_byte mem a (k := k) (n := 0) (by omega) (by omega)
  have h1 := portWord_byte mem a (k := k+1) (n := 1) (by omega) hk
  have hj := Bits.extract_join (portWord mem a) (8*k) 8 8
  rw [show 8*k+8 = 8*(k+1) by omega,h0,h1,BitVec.add_zero] at hj
  exact hj.symm

theorem portWord_word (mem : Word → BitVec 8) (a : Word) (h : a.toNat % 4 = 0) :
    portWord mem a = mem (a+3) ++ mem (a+2) ++ mem (a+1) ++ mem a := by
  have h0 := base_add a (k := 0) (n := 0) (by omega)
  rw [BitVec.add_zero,BitVec.add_zero] at h0
  rw [portWord,h0]

theorem loadData_value {q : ExMem} {op : LoadOp} {a : Word} (hm : q.memOp = op.funct3)
    (ha : q.exResult = a) (hz : a.toNat % op.size = 0) :
    q.loadData (portWord mem a) = op.value mem a := by
  have ho : q.byteOff.toNat = a.toNat % 4 := by
    rw [ExMem.byteOff,ha,low_toNat]
    rfl
  have hb := portWord_byte mem a (k := a.toNat % 4) (n := 0) (by omega) (by omega)
  rw [BitVec.add_zero] at hb
  -- the half is chosen by bit 1 of the address
  have hh : a.toNat % 2 = 0 → (if q.byteOff.getLsbD 1 then
      (portWord mem a).extractLsb' 16 16 else (portWord mem a).extractLsb' 0 16) =
        mem (a+1) ++ mem a := by
    intro h2
    have hbit : q.byteOff.getLsbD 1 = decide (a.toNat % 4 = 2) := by
      have hcases : a.toNat % 4 = 0 ∨ a.toNat % 4 = 2 := by omega
      rw [BitVec.getLsbD,ho]
      rcases hcases with h | h <;> rw [h] <;> rfl
    rw [hbit]
    rcases (by omega : a.toNat % 4 = 0 ∨ a.toNat % 4 = 2) with h | h
    · simpa [h] using portWord_half mem a h (by omega)
    · simpa [h] using portWord_half mem a h (by omega)
  simp only [ExMem.loadData,hm,ho,hb]
  cases op with
  | lb => rfl
  | lbu => rfl
  | lh => exact congrArg (BitVec.signExtend 32) (hh hz)
  | lhu => exact congrArg (BitVec.setWidth 32) (hh hz)
  | lw => exact portWord_word mem a hz

/-! ### Results -/

theorem quiet_unit (u : UnitOp) : Quiet (u.ctrl ctrlOpImm) ∧ Quiet (u.ctrl ctrlOp) := by
  cases u <;> exact ⟨⟨⟨rfl,rfl,rfl,rfl,rfl⟩,rfl,rfl,rfl,rfl⟩,⟨⟨rfl,rfl,rfl,rfl,rfl⟩,rfl,rfl,rfl,rfl⟩⟩

theorem result_imm {u : UnitOp} (h : x.q.ctrl = u.ctrl ctrlOpImm) (md : Word) :
    x.result md = u.run x.rs1Fwd x.q.imm := by
  cases u <;> simp [Ex.result,Ex.bmResult,Ex.aluY,Ex.aluA,Ex.aluB,h,UnitOp.ctrl,ctrlOpImm,UnitOp.run]

theorem result_reg {u : UnitOp} (h : x.q.ctrl = u.ctrl ctrlOp) (md : Word) :
    x.result md = u.run x.rs1Fwd x.rs2Fwd := by
  cases u <;> simp [Ex.result,Ex.bmResult,Ex.aluY,Ex.aluA,Ex.aluB,h,UnitOp.ctrl,ctrlOp,UnitOp.run]

theorem unit_writes (u : UnitOp) : (u.ctrl ctrlOpImm).regWrite = true ∧
    (u.ctrl ctrlOpImm).resultSel = .alu ∧ (u.ctrl ctrlOp).regWrite = true ∧
    (u.ctrl ctrlOp).resultSel = .alu ∧ (u.ctrl ctrlOpImm).immFmt = .i := by
  cases u <;> exact ⟨rfl,rfl,rfl,rfl,rfl⟩

/-- A shift or bit operation reads its second operand modulo the width. -/
theorem shift_eval_congr (op : ShiftOp) (a : Word) {b b' : Word} (h : shamt b = shamt b') :
    op.reg.eval a b = op.reg.eval a b' := by
  cases op <;> simp only [ShiftOp.reg,RegOp.eval,h]

theorem shamt_simm (f7 : BitVec 7) (sh : BitVec 5) :
    shamt (simm (f7 ++ sh)) = shamt (sh.setWidth 32) := by
  have hlow : ((f7 ++ sh).signExtend 32).extractLsb' 0 5 = sh := by
    refine BitVec.eq_of_getLsbD_eq fun i hi => ?_
    simp only [BitVec.getLsbD_extractLsb',BitVec.getLsbD_signExtend,BitVec.getLsbD_append,hi,
      Nat.zero_add,show i < 7+5 by omega,show i < 32 by omega,decide_true,Bool.true_and,if_true]
  have h := congrArg BitVec.toNat hlow
  rw [shamt_toNat] at h
  refine h.trans ?_
  rw [shamt,BitVec.toNat_setWidth]
  have hlt := sh.isLt
  omega

theorem ofFunct3_funct3 (op : MOp) : MOp.ofFunct3 op.funct3 = op := by
  cases op <;> rfl

/-! ### Every instruction -/

def Holds (x : Ex) (i : Instr) : Prop := x.q = Seq.decoded x.q.pc i.encode

namespace Holds

variable {i : Instr}

theorem valid (h : Holds x i) : x.q.valid = true := by
  rw [h]
  rfl

theorem insn (h : Holds x i) : x.q.insn = i.encode := by
  rw [h]
  rfl

theorem ctrl (h : Holds x i) : x.q.ctrl = ctrlOf i := by
  rw [h]
  exact decode_encode i

theorem imm (h : Holds x i) : x.q.imm = immgen i.encode (ctrlOf i).immFmt := by
  rw [h,← decode_encode i]
  rfl

theorem rdAddr (h : Holds x i) : x.q.rdAddr = rdField i.encode := by
  rw [h]
  rfl

theorem memAddr (h : Holds x i) : x.memAddr = x.rs1Fwd+immgen i.encode (ctrlOf i).immFmt := by
  rw [Ex.memAddr,h.imm]

end Holds

/-! Instructions that compute. -/

theorem exec_compute {i : Instr} {rd : BitVec 5} {v : Word} (h : Holds x i) (hq : Quiet (ctrlOf i))
    (hw : (ctrlOf i).regWrite = true) (hs : (ctrlOf i).resultSel = .alu)
    (hd : rdField i.encode = rd)
    (hv : x.result (Muldiv.compute x.q.ctrl.muldivOp x.rs1Fwd x.rs2Fwd) = v) :
    outcome x mem = compute (envOf x mem) rd v := by
  have hc := h.ctrl
  rw [outcome_compute (hc ▸ hq) (hc ▸ hw) (hc ▸ hs) hv,h.rdAddr,hd]

theorem quiet_lui : Quiet ctrlLui := ⟨⟨rfl,rfl,rfl,rfl,rfl⟩,rfl,rfl,rfl,rfl⟩

theorem quiet_auipc : Quiet ctrlAuipc := ⟨⟨rfl,rfl,rfl,rfl,rfl⟩,rfl,rfl,rfl,rfl⟩

theorem exec_lui {rd : BitVec 5} {imm : BitVec 20} (h : Holds x (.lui rd imm)) :
    outcome x mem = compute (envOf x mem) rd (uimm imm) := by
  have hi : x.q.imm = uimm imm := by
    rw [h.imm]
    exact (immgen_u _).trans (congrArg uimm (upper_uType imm rd _))
  refine exec_compute h quiet_lui rfl rfl (rdField_uType _ _ _) ?_
  rw [Ex.result,Ex.aluY,Ex.aluB,h.ctrl]
  exact hi

theorem exec_auipc {rd : BitVec 5} {imm : BitVec 20} (h : Holds x (.auipc rd imm)) :
    outcome x mem = compute (envOf x mem) rd (x.q.pc+uimm imm) := by
  have hi : x.q.imm = uimm imm := by
    rw [h.imm]
    exact (immgen_u _).trans (congrArg uimm (upper_uType imm rd _))
  refine exec_compute h quiet_auipc rfl rfl (rdField_uType _ _ _) ?_
  rw [Ex.result,Ex.aluY,Ex.aluA,Ex.aluB,h.ctrl,← hi]
  rfl

theorem exec_opImm {op : ImmOp} {rd rs1 : BitVec 5} {imm : BitVec 12}
    (h : Holds x (.opImm op rd rs1 imm)) :
    outcome x mem = compute (envOf x mem) rd (op.reg.eval x.rs1Fwd (simm imm)) := by
  obtain ⟨hw,hs,_,_,hf⟩ := unit_writes (regUnit op.reg)
  have hi : x.q.imm = simm imm := by
    rw [h.imm,ctrlOf,hf,immgen_i,Instr.encode,funct12_iType]
  have hd : rdField (Instr.opImm op rd rs1 imm).encode = rd := by
    rw [Instr.encode,iType_eq,rdField_rType]
  refine exec_compute h (quiet_unit _).1 hw hs hd ?_
  rw [result_imm h.ctrl,run_regUnit,hi]

theorem exec_shiftImm {op : ShiftOp} {rd rs1 sh : BitVec 5}
    (h : Holds x (.shiftImm op rd rs1 sh)) :
    outcome x mem = compute (envOf x mem) rd (op.reg.eval x.rs1Fwd (sh.setWidth 32)) := by
  obtain ⟨hw,hs,_,_,hf⟩ := unit_writes (regUnit op.reg)
  have hi : x.q.imm = simm (op.reg.funct7 ++ sh) := by
    rw [h.imm,ctrlOf,hf,immgen_i,Instr.encode,funct12_eq,funct7_rType,rs2Field_rType]
  refine exec_compute h (quiet_unit _).1 hw hs (rdField_rType _ _ _ _ _ _) ?_
  rw [result_imm h.ctrl,run_regUnit,hi,shift_eval_congr op _ (shamt_simm _ sh)]

theorem exec_unary {op : UnOp} {rd rs1 : BitVec 5} (h : Holds x (.unary op rd rs1)) :
    outcome x mem = compute (envOf x mem) rd (op.eval x.rs1Fwd) := by
  obtain ⟨hw,hs,_⟩ := unit_writes (.bm (unOp op))
  have hd : rdField (Instr.unary op rd rs1).encode = rd := by
    rw [Instr.encode,iType_eq,rdField_rType]
  have hc : x.q.ctrl = UnitOp.ctrl ctrlOpImm (.bm (unOp op)) := h.ctrl
  refine exec_compute h (quiet_unit (.bm (unOp op))).1 hw hs hd ?_
  rw [result_imm hc,UnitOp.run,run_unOp]

theorem exec_reg {op : RegOp} {rd rs1 rs2 : BitVec 5} (h : Holds x (.reg op rd rs1 rs2)) :
    outcome x mem = compute (envOf x mem) rd (op.eval x.rs1Fwd x.rs2Fwd) := by
  obtain ⟨_,_,hw,hs,_⟩ := unit_writes (regUnit op)
  refine exec_compute h (quiet_unit _).2 hw hs (rdField_rType _ _ _ _ _ _) ?_
  rw [result_reg h.ctrl,run_regUnit]

theorem exec_muldiv {op : MOp} {rd rs1 rs2 : BitVec 5} (h : Holds x (.muldiv op rd rs1 rs2)) :
    outcome x mem = compute (envOf x mem) rd (op.eval x.rs1Fwd x.rs2Fwd) := by
  have hq : Quiet (ctrlOf (.muldiv op rd rs1 rs2)) := ⟨⟨rfl,rfl,rfl,rfl,rfl⟩,rfl,rfl,rfl,rfl⟩
  refine exec_compute h hq rfl rfl (rdField_rType _ _ _ _ _ _) ?_
  rw [Ex.result,h.ctrl,Muldiv.compute_eq]
  exact congrArg (MOp.eval x.rs1Fwd x.rs2Fwd) (ofFunct3_funct3 op)

/-! Transfers. -/

theorem exec_jal {rd : BitVec 5} {imm : BitVec 20} (h : Holds x (.jal rd imm)) :
    outcome x mem = transfer (envOf x mem) (x.q.pc+offset imm) (some (rd,x.q.pc+4)) := by
  have hc := h.ctrl
  have hi : x.q.imm = offset imm := by
    rw [h.imm]
    refine (immgen_j _).trans ?_
    rw [Instr.encode,jType,upper_uType]
    exact congrArg offset (offsetJ_upperJ imm)
  have hp : Plain x.q.ctrl := hc ▸ ⟨rfl,rfl,rfl,rfl,rfl⟩
  have hx : x.ctrlXfer = true := by
    rw [Ex.ctrlXfer,h.valid,hc]
    exact Bool.or_true (false && x.takesBranch)
  have ht : x.jumpTarget = x.q.pc+offset imm := by
    rw [Ex.jumpTarget,hc,← hi]
    rfl
  rw [outcome_transfer h.valid hp (hc ▸ rfl) (hc ▸ rfl) hx (fun _ => hc ▸ rfl),ht,h.rdAddr,hc]
  rw [Instr.encode,jType,rdField_uType]
  rfl

theorem clear_low (a : Word) : a.extractLsb' 1 31 ++ (0 : BitVec 1) = a &&& ~~~1 := by
  refine BitVec.eq_of_getLsbD_eq fun i hi => ?_
  have h1 : (1 : Word) = 1#32 := rfl
  simp only [BitVec.getLsbD_append,BitVec.getLsbD_and,BitVec.getLsbD_not,BitVec.getLsbD_extractLsb',
    h1,BitVec.getLsbD_one]
  cases i with
  | zero => simp
  | succ i => simp [hi,Nat.add_comm 1,show i < 31 by omega]

theorem exec_jalr {rd rs1 : BitVec 5} {imm : BitVec 12} (h : Holds x (.jalr rd rs1 imm)) :
    outcome x mem =
      transfer (envOf x mem) ((x.rs1Fwd+simm imm) &&& ~~~1) (some (rd,x.q.pc+4)) := by
  have hc := h.ctrl
  have hi : x.memAddr = x.rs1Fwd+simm imm := by
    rw [h.memAddr]
    refine congrArg _ ((immgen_i _).trans ?_)
    rw [Instr.encode,funct12_iType]
  have hp : Plain x.q.ctrl := hc ▸ ⟨rfl,rfl,rfl,rfl,rfl⟩
  have hx : x.ctrlXfer = true := by
    rw [Ex.ctrlXfer,h.valid,hc]
    exact Bool.or_true (false && x.takesBranch)
  have ht : x.jumpTarget = (x.rs1Fwd+simm imm) &&& ~~~1 := by
    rw [Ex.jumpTarget,hc,← clear_low,← hi]
    rfl
  rw [outcome_transfer h.valid hp (hc ▸ rfl) (hc ▸ rfl) hx (fun _ => hc ▸ rfl),ht,h.rdAddr,hc]
  rw [Instr.encode,iType_eq,rdField_rType]
  rfl

theorem exec_branch {c : Cond} {rs1 rs2 : BitVec 5} {imm : BitVec 12}
    (h : Holds x (.branch c rs1 rs2 imm)) :
    outcome x mem = if c.holds x.rs1Fwd x.rs2Fwd then
      transfer (envOf x mem) (x.q.pc+offset imm) none else {next := x.q.pc+4} := by
  have hc := h.ctrl
  have hi : x.q.imm = offset imm := by
    rw [h.imm]
    refine (immgen_b _).trans ?_
    rw [Instr.encode,bType,funct7_rType,rdField_rType,offsetB_bType]
  have hp : Plain x.q.ctrl := hc ▸ ⟨rfl,rfl,rfl,rfl,rfl⟩
  have hx : x.ctrlXfer = c.holds x.rs1Fwd x.rs2Fwd := by
    rw [Ex.ctrlXfer,Ex.takesBranch,h.valid,hc,h.insn,Instr.encode,bType,funct3_rType,
      branchTaken_eval]
    exact Bool.or_false _
  have ht : x.jumpTarget = x.q.pc+offset imm := by
    rw [Ex.jumpTarget,hc,← hi]
    rfl
  cases hb : c.holds x.rs1Fwd x.rs2Fwd with
  | true =>
    rw [hb] at hx
    rw [outcome_transfer h.valid hp (hc ▸ rfl) (hc ▸ rfl) hx (fun hg => ?_),ht,hc]
    · rfl
    · rw [hc] at hg
      cases hg
  | false =>
    rw [hb] at hx
    exact outcome_nop hp hx (hc ▸ rfl) (hc ▸ rfl) (hc ▸ rfl)

/-! Loads and stores. -/

theorem exec_load {op : LoadOp} {rd rs1 : BitVec 5} {imm : BitVec 12}
    (h : Holds x (.load op rd rs1 imm)) :
    outcome x mem = access (envOf x mem) 4 op.size (x.rs1Fwd+simm imm)
      (some (rd,op.value mem (x.rs1Fwd+simm imm))) := by
  have hc := h.ctrl
  have ha : x.memAddr = x.rs1Fwd+simm imm := by
    rw [h.memAddr]
    refine congrArg _ ((immgen_i _).trans ?_)
    rw [Instr.encode,funct12_iType]
  have hd : x.q.rdAddr = rd := by rw [h.rdAddr,Instr.encode,iType_eq,rdField_rType]
  have hp : Plain x.q.ctrl := hc ▸ ⟨rfl,rfl,rfl,rfl,rfl⟩
  have ho : x.q.ctrl.memOp = op.funct3 := by rw [hc]; rfl
  have hm : x.addrMisaligned = decide (x.memAddr.toNat % op.size ≠ 0) := by
    refine misaligned_iff ?_
    rw [ho]
    cases op <;> decide
  rw [← ha]
  refine outcome_access h.valid hp (hc ▸ rfl) (hc ▸ rfl) (.inl ⟨hc ▸ rfl,hc ▸ rfl,rfl⟩) hm
    fun hz => ?_
  let q := x.latch (Muldiv.compute x.q.ctrl.muldivOp x.rs1Fwd x.rs2Fwd)
  have hq : q.exResult = x.memAddr := by
    change x.result _ = x.memAddr
    rw [Ex.result,Ex.aluY,Ex.aluA,Ex.aluB,hc]
    rfl
  have hs : q.resultSel = .mem := congrArg Ctrl.resultSel hc
  have hv : q.result (portWord mem x.memAddr) = op.value mem x.memAddr := by
    rw [ExMem.result,hs]
    exact loadData_value ho hq hz
  rw [hv,hd,hc]
  rfl

theorem exec_store {op : StoreOp} {rs1 rs2 : BitVec 5} {imm : BitVec 12}
    (h : Holds x (.store op rs1 rs2 imm)) :
    outcome x mem = access (envOf x mem) 6 op.size (x.rs1Fwd+simm imm) none := by
  have hc := h.ctrl
  have hi : immgen (Instr.store op rs1 rs2 imm).encode .s = simm imm := by
    refine (immgen_s _).trans (congrArg simm ?_)
    rw [Instr.encode,sType,funct7_rType,rdField_rType]
    exact (Bits.extract_join imm 0 7 5).trans BitVec.extractLsb'_eq_self
  have ha : x.memAddr = x.rs1Fwd+simm imm := h.memAddr.trans (congrArg _ hi)
  have hp : Plain x.q.ctrl := hc ▸ ⟨rfl,rfl,rfl,rfl,rfl⟩
  have ho : x.q.ctrl.memOp = op.funct3 := by rw [hc]; rfl
  have hm : x.addrMisaligned = decide (x.memAddr.toNat % op.size ≠ 0) := by
    refine misaligned_iff ?_
    rw [ho]
    cases op <;> decide
  rw [← ha]
  refine outcome_access h.valid hp (hc ▸ rfl) (hc ▸ rfl) (.inr ⟨hc ▸ rfl,hc ▸ rfl,rfl⟩) hm
    fun _ => ?_
  rw [hc]
  rfl

/-! The rest of the system opcode. -/

theorem exec_fence {fields : BitVec 12} {rd rs1 : BitVec 5} (h : Holds x (.fence fields rd rs1)) :
    outcome x mem = {next := x.q.pc+4} := by
  have hc := h.ctrl
  have hx : x.ctrlXfer = false := by
    rw [Ex.ctrlXfer,hc]
    exact Bool.and_false _
  exact outcome_nop (hc ▸ ⟨rfl,rfl,rfl,rfl,rfl⟩) hx (hc ▸ rfl) (hc ▸ rfl) (hc ▸ rfl)

theorem exec_wfi (h : Holds x .wfi) : outcome x mem = {next := x.q.pc+4} := by
  have hc := h.ctrl
  have hx : x.ctrlXfer = false := by
    rw [Ex.ctrlXfer,hc]
    exact Bool.and_false _
  exact outcome_nop (hc ▸ ⟨rfl,rfl,rfl,rfl,rfl⟩) hx (hc ▸ rfl) (hc ▸ rfl) (hc ▸ rfl)

theorem exec_ecall (h : Holds x .ecall) :
    outcome x mem = {trap := some (11,0), next := Csr.mtvecO x.csr.toArch} := by
  have ht : x.trapInfo = some (11,0) := by
    rw [Ex.trapInfo,h.valid,h.ctrl]
    rfl
  rw [outcome,Ex.redirectTarget,Ex.trap,ht,h.ctrl]
  rfl

theorem exec_ebreak (h : Holds x .ebreak) :
    outcome x mem = {trap := some (3,x.q.pc), next := Csr.mtvecO x.csr.toArch} := by
  have ht : x.trapInfo = some (3,x.q.pc) := by
    rw [Ex.trapInfo,h.valid,h.ctrl]
    rfl
  rw [outcome,Ex.redirectTarget,Ex.trap,ht,h.ctrl]
  rfl

theorem exec_mret (h : Holds x .mret) :
    outcome x mem = {next := Csr.mepcO x.csr.toArch} := by
  have hc := h.ctrl
  have hx : x.ctrlXfer = false := by
    rw [Ex.ctrlXfer,hc]
    exact Bool.and_false _
  have ht : x.trapInfo = none := by
    rw [Ex.trapInfo,h.valid,Ex.targetMisaligned,hx,hc]
    rfl
  have hm : x.mret = true := by rw [Ex.mret,h.valid,hc]; rfl
  rw [outcome,Ex.redirectTarget,Ex.trap,ht,hm,hc]
  rfl

theorem exec_eq {i : Instr} (h : Holds x i) :
    i.exec (envOf x mem) = if (ctrlOf i).isCsr then none else some (outcome x mem) := by
  have hcsr : ∀ (c : Ctrl) (u : UnitOp), c.isCsr = false → (u.ctrl c).isCsr = false := by
    intro c u hc
    cases u <;> exact hc
  cases i with
  | lui rd imm => exact congrArg some (exec_lui h).symm
  | auipc rd imm => exact congrArg some (exec_auipc h).symm
  | jal rd imm => exact congrArg some (exec_jal h).symm
  | jalr rd rs1 imm => exact congrArg some (exec_jalr h).symm
  | branch c rs1 rs2 imm =>
    refine Eq.trans ?_ (congrArg some (exec_branch h).symm)
    cases hb : c.holds x.rs1Fwd x.rs2Fwd <;> simp [Instr.exec,envOf,hb]
  | load op rd rs1 imm => exact congrArg some (exec_load h).symm
  | store op rs1 rs2 imm => exact congrArg some (exec_store h).symm
  | opImm op rd rs1 imm =>
    rw [ctrlOf,hcsr _ _ rfl]
    exact congrArg some (exec_opImm h).symm
  | shiftImm op rd rs1 sh =>
    rw [ctrlOf,hcsr _ _ rfl]
    exact congrArg some (exec_shiftImm h).symm
  | unary op rd rs1 => exact congrArg some (exec_unary h).symm
  | reg op rd rs1 rs2 =>
    rw [ctrlOf,hcsr _ _ rfl]
    exact congrArg some (exec_reg h).symm
  | muldiv op rd rs1 rs2 => exact congrArg some (exec_muldiv h).symm
  | fence fields rd rs1 => exact congrArg some (exec_fence h).symm
  | ecall => exact congrArg some (exec_ecall h).symm
  | ebreak => exact congrArg some (exec_ebreak h).symm
  | mret => exact congrArg some (exec_mret h).symm
  | wfi => exact congrArg some (exec_wfi h).symm
  | csr op addr rd src => cases op <;> rfl

/-- The words the decoder accepts are the encodings, and EX gives each its outcome. At an
even pc a target cannot be fetched from exactly when it is no multiple of 4. -/
theorem conforms :
    (∀ w, (decode w).isIllegal = true ↔ ¬∃ i : Instr, i.encode = w) ∧
    ∀ (i : Instr) (pc rs1 rs2 : Word) (csr : Csr.State) (seedRdata : Word)
      (mem : Word → BitVec 8), let x := stage i.encode pc rs1 rs2 csr seedRdata
      (i.exec (envOf x mem) = if x.q.ctrl.isCsr then none else some (outcome x mem)) ∧
      (pc.toNat % 2 = 0 → ∀ t ∈ i.target (envOf x mem),
        fetchMisaligned t = decide (t.toNat % 4 ≠ 0)) := by
  refine ⟨legal_iff,fun i pc rs1 rs2 csr seedRdata mem => ⟨?_,fun hp t ht => ?_⟩⟩
  · have h : Holds (stage i.encode pc rs1 rs2 csr seedRdata) i := rfl
    rw [h.ctrl]
    exact exec_eq h
  · exact fetchMisaligned_iff (Instr.target_even hp ht)

end Rvntt
