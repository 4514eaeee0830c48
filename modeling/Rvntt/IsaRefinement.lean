import Rvntt.IsaRuns
import Rvntt.Refinement
import Rvntt.Learnt
set_option autoImplicit false

/-!
The core on its memory runs the machine of the specification: every step of the
sequential machine is one of its steps.
-/

namespace Rvntt

/-! ### CSRs -/

namespace Csr

theorem Reg.value_arch (r : Reg) (s : State) : r.value {toArch := s.toArch} = r.value s := by
  cases r <;> rfl

theorem rdata_reg (r : Reg) (s : State) (seedRdata : Word) :
    rdata s seedRdata r.addr = r.value s := by
  cases r with
  | mhpmevent k => fin_cases k <;> rfl
  | _ => rfl

theorem mstatusRd_eq (s : Arch) :
    mstatusRd s = Isa.Csrs.mstatus s.mstatusMieQ s.mstatusMpieQ := by
  rw [mstatusRd]
  cases s.mstatusMieQ <;> cases s.mstatusMpieQ <;> rfl

theorem mstatusRd_mie (s : Arch) : (mstatusRd s).getLsbD 3 = s.mstatusMieQ := by
  rw [mstatusRd_eq]
  cases s.mstatusMieQ <;> cases s.mstatusMpieQ <;> rfl

theorem mstatusRd_mpie (s : Arch) : (mstatusRd s).getLsbD 7 = s.mstatusMpieQ := by
  rw [mstatusRd_eq]
  cases s.mstatusMieQ <;> cases s.mstatusMpieQ <;> rfl

def view (s : State) : Isa.Csrs := fun r => r.value s

theorem view_reset : view {} = Isa.Csrs.reset := by
  funext r
  cases r with
  | mhpmevent k => rfl
  | _ => decide

theorem view_trap (s : State) {i : In} (h : i.trapEn = true) :
    view (next s i) = (view s).enter i.trapPc i.trapCause i.trapVal := by
  funext r
  rw [view,next,if_pos h]
  cases r with
  | mstatus =>
    change mstatusRd _ = Isa.Csrs.mstatus false ((mstatusRd s.toArch).getLsbD 3)
    rw [mstatusRd_eq,mstatusRd_mie]
    rfl
  | mepc => exact aligned_warl i.trapPc
  | _ => rfl

theorem view_mret (s : State) {i : In} (ht : i.trapEn = false) (h : i.mretEn = true) :
    view (next s i) = (view s).leave := by
  funext r
  rw [view,next,if_neg (by simp [ht]),if_pos h]
  cases r with
  | mstatus =>
    change mstatusRd _ = Isa.Csrs.mstatus ((mstatusRd s.toArch).getLsbD 7) true
    rw [mstatusRd_eq,mstatusRd_mpie]
    rfl
  | _ => rfl

theorem view_write (s : State) {i : In} (ht : i.trapEn = false) (hm : i.mretEn = false)
    (hw : doWrite i.addr i.wen = true) :
    view (next s i) = (view s).put i.addr i.wdata := by
  funext r
  rw [view,next_writing (by simp [writing,ht,hm,hw]),Isa.Csrs.put]
  by_cases ha : r.addr = i.addr
  · rw [if_pos ha,← ha,write_reg_self _ 0,tick_reg]
    rfl
  · rw [if_neg ha,write_reg_other _ _ (Ne.symm ha),tick_reg]
    rfl

theorem view_keep (s : State) {i : In} (ht : i.trapEn = false) (hm : i.mretEn = false)
    (hw : doWrite i.addr i.wen = false) : view (next s i) = view s := by
  funext r
  rw [view,next,if_neg (by simp [ht]),if_neg (by simp [hm]),if_neg (by simp [hw])]
  exact tick_reg s i r

theorem view_read (s : State) (seedRdata : Word) (addr : Addr) :
    (view s).read (rdata s seedRdata) addr = rdata s seedRdata addr := by
  rw [Isa.Csrs.read]
  split
  · rename_i r h
    have ha : r.addr = addr := by simpa using List.find?_some h
    rw [← ha,rdata_reg]
    rfl
  · rfl

theorem numbered_unnamed : (named.all fun a => numbered.all fun base =>
    a.toNat < base+9 || base+31 < a.toNat) = true := by
  decide

theorem rdata_zero (s : State) (seedRdata : Word) {addr : Addr} (h : Isa.ReadsZero addr) :
    rdata s seedRdata addr = 0 := by
  rcases h with h | ⟨base,hb,n,h9,h31,hn⟩
  · simp only [List.mem_cons,List.not_mem_nil,or_false] at h
    rcases h with rfl | rfl | rfl | rfl | rfl <;> rfl
  · have hnamed : addr ∉ named := by
      intro hm
      have h := List.all_eq_true.mp (List.all_eq_true.mp numbered_unnamed addr hm) base hb
      simp only [Bool.or_eq_true,decide_eq_true_eq] at h
      omega
    have hi : hpmImpl addr = false := by
      rw [← Bool.not_eq_true,hpmImpl_iff]
      simp only [numbered,List.mem_cons,List.not_mem_nil,or_false] at hb
      omega
    rw [rdata_unnamed hnamed,hi]
    rfl

theorem rdata_ok (s : State) (seedRdata : Word) : Isa.Volatile.Ok (rdata s seedRdata) :=
  ⟨rfl,fun _ h => rdata_zero s seedRdata h⟩

end Csr

/-! ### One instruction -/

open Isa

section stage

variable {x : Ex} {mem : Word → BitVec 8}

theorem Holds.decoded {i : Instr} (h : Holds x i) : Core.Decoded x.q := by
  rw [Holds] at h
  rw [h]
  exact ⟨rfl,rfl,rfl,rfl,rfl⟩

theorem illegal_effect (hv : x.q.valid = true) (hc : x.q.ctrl = Ctrl.illegal) :
    x.trapInfo = some (2,x.q.insn) ∧ (outcome x mem).dest = none ∧
      x.redirectTarget = Csr.mtvecO x.csr.toArch := by
  have ht : x.trapInfo = some (2,x.q.insn) := by
    rw [Ex.trapInfo,hv,hc]
    rfl
  refine ⟨ht,?_,?_⟩
  · simp [outcome,Ex.trap,ht]
  · simp [Ex.redirectTarget,Ex.trap,ht]

theorem csrAccess_eq {op : CsrOp} {addr : BitVec 12} {rd src : BitVec 5}
    (h : Holds x (.csr op addr rd src)) :
    (Instr.csr op addr rd src).csrAccess x.rs1Fwd = some x.csrAccess := by
  have hw : x.q.insn = iType addr src op.funct3 rd 0b1110011 := h.insn
  have hf3 : funct3 x.q.insn = op.funct3 := by rw [hw,iType_eq,funct3_rType]
  have ha : x.csrAddr = addr := by
    rw [Ex.csrAddr,hw]
    exact funct12_iType _ _ _ _ _
  have hop : x.csrOp = op.funct3.extractLsb' 0 2 := by
    rw [← hf3]
    exact (Bits.extract_extract x.q.insn 12 3 0 2 (by omega)).symm
  have hi : x.csrImm = op.funct3.getLsbD 2 := by rw [Ex.csrImm,← funct3_bit2,hf3]
  have hsrc : rs1Field x.q.insn = src := by rw [hw,iType_eq,rs1Field_rType]
  have hr : x.q.rs1Addr = src := h.decoded.rs1Addr.trans hsrc
  have hq : op.immediate = true → x.q.imm = src.setWidth 32 := by
    intro him
    have hz : (ctrlOf (.csr op addr rd src)).immFmt = .z := by
      cases op <;> first | rfl | cases him
    rw [h.decoded.imm,h.ctrl,hz,← hsrc]
    rfl
  have hlow : ((src.setWidth 32).extractLsb' 0 5 : BitVec 5) = src := by
    refine BitVec.eq_of_getLsbD_eq fun k hk => ?_
    simp [hk,show k < 32 by omega]
  rw [Instr.csrAccess,Ex.csrAccess,ha,hop,Ex.csrSrc,Ex.csrSrcNz,hi,hr]
  cases op with
  | csrrw => rfl
  | csrrs => rfl
  | csrrc => rfl
  | csrrwi | csrrsi | csrrci =>
    rw [hq rfl]
    exact congrArg some (congrArg (Csr.Access.mk _ _ _) (congrArg (· != 0) hlow.symm))

theorem csrIllegal_iff {op : CsrOp} {addr : BitVec 12} {rd src : BitVec 5}
    (h : Holds x (.csr op addr rd src)) : x.csrIllegal = true ↔ CsrIllegal x.csrAccess := by
  have hc : x.q.ctrl.isCsr = true := by rw [h.ctrl]; cases op <;> rfl
  rw [Ex.csrIllegal,Csr.illegal_iff,Ex.csrWen_eq h.valid h.decoded hc]
  rfl

theorem csr_effect (mem : Word → BitVec 8) {op : CsrOp} {addr : BitVec 12} {rd src : BitVec 5}
    (h : Holds x (.csr op addr rd src)) :
    if CsrIllegal x.csrAccess then
      x.trapInfo = some (2,x.q.insn) ∧ (outcome x mem).dest = none ∧
        x.redirectTarget = Csr.mtvecO x.csr.toArch
    else x.trapInfo = none ∧ (outcome x mem).dest = some (x.q.rdAddr,x.csrRdata) ∧
      x.redirectTarget = x.q.pc+4 := by
  have hc : x.q.ctrl = ctrlCsrReg ∨ x.q.ctrl = ctrlCsrImm := by
    rw [h.ctrl]
    cases op <;> simp [ctrlOf,CsrOp.funct3]
  have ht : x.trapInfo = if x.csrIllegal then some (2,x.q.insn) else none := by
    rcases hc with hc | hc <;>
      simp [Ex.trapInfo,h.valid,Ex.targetMisaligned,Ex.ctrlXfer,hc,ctrlCsrReg,ctrlCsrImm]
  split
  · rename_i hi
    rw [if_pos ((csrIllegal_iff h).mpr hi)] at ht
    refine ⟨ht,?_,?_⟩
    · simp [outcome,Ex.trap,ht]
    · simp [Ex.redirectTarget,Ex.trap,ht]
  · rename_i hi
    rw [if_neg (mt (csrIllegal_iff h).mp hi)] at ht
    have hx : x.ctrlXfer = false := by
      rw [Ex.ctrlXfer]
      rcases hc with hc | hc <;> simp [hc,ctrlCsrReg,ctrlCsrImm]
    have hm : x.mret = false := by
      rw [Ex.mret]
      rcases hc with hc | hc <;> simp [hc,ctrlCsrReg,ctrlCsrImm]
    refine ⟨ht,?_,?_⟩
    · rw [outcome,Ex.trap,ht,ExMem.result,Ex.latch,Ex.result]
      rcases hc with hc | hc <;> rw [hc] <;> rfl
    · simp [Ex.redirectTarget,Ex.trap,ht,hm,hx,Ex.pcPlus4]

theorem csrAccess_none {i : Instr} {v : Word} (h : i.csrAccess v = none) :
    (ctrlOf i).isCsr = false := by
  have hu : ∀ (c : Ctrl) (u : UnitOp), c.isCsr = false → (u.ctrl c).isCsr = false := by
    intro c u hc
    cases u <;> exact hc
  cases i with
  | csr => cases h
  | opImm => exact hu _ _ rfl
  | shiftImm => exact hu _ _ rfl
  | reg => exact hu _ _ rfl
  | _ => rfl

theorem csrAccess_some {i : Instr} {v : Word} {a : Csr.Access} (h : i.csrAccess v = some a) :
    ∃ op addr rd src, i = .csr op addr rd src := by
  cases i with
  | csr op addr rd src => exact ⟨op,addr,rd,src,rfl⟩
  | _ => cases h

theorem access_addr (e : Env) (cause : BitVec 5) (size : Nat) (a : Word)
    (dest : Option (BitVec 5 × Word)) : (access e cause size a dest).addr = some a := by
  rw [access]
  split <;> rfl

theorem performs_stores (mem : Word → BitVec 8) {i : Instr} (h : Holds x i)
    (ht : x.trapInfo = none) : Performs x (stores (envOf x mem) i) := by
  have hu : ∀ (c : Ctrl) (u : UnitOp), c.memWrite = false → (u.ctrl c).memWrite = false := by
    intro c u hc
    cases u <;> exact hc
  have hidle : (ctrlOf i).memWrite = false → x.storing = false := by
    intro hw
    rw [Ex.storing,h.ctrl,hw]
    simp
  cases i with
  | store op rs1 rs2 imm =>
    have hout : outcome x mem = access (envOf x mem) 6 op.size (x.rs1Fwd+simm imm) none :=
      exec_store h
    have ha : x.memAddr = x.rs1Fwd+simm imm := by
      have hw : (outcome x mem).addr = some x.memAddr := by
        rw [outcome,h.ctrl]
        rfl
      rw [hout,access_addr] at hw
      exact (Option.some.inj hw).symm
    have hz : (x.rs1Fwd+simm imm).toNat % op.size = 0 := by
      by_contra hne
      have hr := congrArg Outcome.trap hout
      rw [access,if_pos hne] at hr
      rw [outcome,ht] at hr
      cases hr
    have hc := h.ctrl
    refine ⟨h.valid,h.decoded,?_,?_,ha,rfl,hz⟩
    · rw [hc]; rfl
    · rw [hc]; rfl
  | opImm => exact hidle (hu _ _ rfl)
  | shiftImm => exact hidle (hu _ _ rfl)
  | unary => exact hidle (hu _ _ rfl)
  | reg => exact hidle (hu _ _ rfl)
  | csr op => exact hidle (by cases op <;> rfl)
  | _ => exact hidle rfl

theorem isMret_iff {i : Instr} : (ctrlOf i).isMret = true ↔ i = .mret := by
  have hu : ∀ (c : Ctrl) (u : UnitOp), c.isMret = false → (u.ctrl c).isMret = false := by
    intro c u hc
    cases u <;> exact hc
  cases i with
  | mret => exact ⟨fun _ => rfl,fun _ => rfl⟩
  | opImm op =>
    rw [ctrlOf,hu _ _ rfl]
    simp
  | shiftImm op =>
    rw [ctrlOf,hu _ _ rfl]
    simp
  | unary op =>
    rw [ctrlOf,hu _ _ rfl]
    simp
  | reg op =>
    rw [ctrlOf,hu _ _ rfl]
    simp
  | csr op =>
    cases op <;> simp [ctrlOf,CsrOp.funct3,ctrlCsrReg,ctrlCsrImm]
  | _ => simp [ctrlOf,ctrlLui,ctrlAuipc,ctrlJal,ctrlJalr,ctrlBranch,ctrlLoad,ctrlStore,ctrlOp]

end stage

/-! ### One step -/

namespace Isa

/-- The instruction in EX is the hart's next one. -/
structure Hart.Sees (h : Hart) (w : View) (x : Ex) : Prop where
  q : x.q = Seq.decoded h.pc w.insn
  rs1 : x.rs1Fwd = h.regs (rs1Field w.insn)
  rs2 : x.rs2Fwd = h.regs (rs2Field w.insn)
  csr : Csr.view x.csr = h.csr

def volOf (x : Ex) : Volatile := Csr.rdata x.csr x.seedRdata

namespace Hart.Sees

variable {h : Hart} {w : View} {x : Ex}

theorem env (hs : Sees h w x) : envOf x w.mem = h.env w := by
  rw [envOf,Hart.env,hs.q,hs.rs1,hs.rs2,← hs.csr]
  rfl

theorem insn (hs : Sees h w x) : x.q.insn = w.insn := by rw [hs.q]; rfl

theorem valid (hs : Sees h w x) : x.q.valid = true := by rw [hs.q]; rfl

theorem holds (hs : Sees h w x) {i : Instr} (hd : Instr.decode w.insn = some i) : Holds x i := by
  rw [Holds,hs.q,Instr.encode_of_decode hd]
  rfl

theorem rs1_env (hs : Sees h w x) : (h.env w).rs1 = x.rs1Fwd := hs.rs1.symm

theorem outcome (hs : Sees h w x) :
    let r := h.outcome (volOf x) w
    r.trap = x.trapInfo ∧ r.dest = (Rvntt.outcome x w.mem).dest ∧ r.next = x.redirectTarget := by
  have hill : x.trapInfo = some (2,x.q.insn) ∧ (Rvntt.outcome x w.mem).dest = none ∧
      x.redirectTarget = Csr.mtvecO x.csr.toArch → h.outcome (volOf x) w = h.illegal w.insn →
      (h.outcome (volOf x) w).trap = x.trapInfo ∧
        (h.outcome (volOf x) w).dest = (Rvntt.outcome x w.mem).dest ∧
        (h.outcome (volOf x) w).next = x.redirectTarget := by
    rintro ⟨h1,h2,h3⟩ hr
    rw [h1,h2,h3,hr,illegal,hs.insn,← hs.csr]
    exact ⟨rfl,rfl,rfl⟩
  cases ho : Instr.decode w.insn with
  | none =>
    refine hill (illegal_effect hs.valid ?_) (outcome_illegal ho)
    have hi : (decode w.insn).isIllegal = true :=
      (legal_iff _).mpr (Instr.decode_eq_none_iff.mp ho)
    have hl : (decode w.insn).isIllegal = (decodeArm w.insn).isIllegal := legalise_isIllegal _
    have hc : x.q.ctrl = decode w.insn := by rw [hs.q]; rfl
    rw [hc,decode,legalise,if_pos (hl.symm.trans hi)]
  | some i =>
    have hh := hs.holds ho
    cases ha : i.csrAccess (h.env w).rs1 with
    | some a =>
      have hr := outcome_csr (volOf x) ho ha
      rw [hs.rs1_env] at ha
      obtain ⟨op,addr,rd,src,rfl⟩ := csrAccess_some ha
      rw [csrAccess_eq hh] at ha
      obtain rfl := Option.some.inj ha
      have hc := csr_effect w.mem hh
      by_cases hi : CsrIllegal x.csrAccess
      · rw [if_pos hi] at hc
        exact hill hc (hr.trans (if_pos hi))
      · rw [if_neg hi] at hc
        obtain ⟨h1,h2,h3⟩ := hc
        have hrd : x.q.rdAddr = rdField w.insn := by rw [hs.q]; rfl
        have hpc : x.q.pc = h.pc := by rw [hs.q]; rfl
        intro r
        have hr' : r = _ := hr
        rw [h1,h2,h3,hr',if_neg hi,← hs.csr,volOf,Csr.view_read,hrd,hpc]
        exact ⟨rfl,rfl,rfl⟩
    | none =>
      have hr := outcome_exec (volOf x) ho ha
      rw [hs.rs1_env] at ha
      have hx : i.exec (h.env w) = some (Rvntt.outcome x w.mem) := by
        rw [← hs.env,exec_eq hh,csrAccess_none ha,if_neg Bool.false_ne_true]
      rw [hx] at hr
      intro r
      have hr' : r = Rvntt.outcome x w.mem := hr
      rw [hr']
      exact ⟨rfl,rfl,rfl⟩

theorem csrNext (hs : Sees h w x) {i : Instr} (hd : Instr.decode w.insn = some i)
    (ht : x.trapInfo = none) : h.csrNext (volOf x) w i =
      Csr.view (Csr.next x.csr (x.csrIn (!x.trap) 0)) := by
  have hh := hs.holds hd
  have htrap : x.trap = false := by rw [Ex.trap,ht]; rfl
  have hmret : x.mret = (ctrlOf i).isMret := by
    rw [Ex.mret,hh.valid,hh.ctrl,Bool.true_and]
  rw [Hart.csrNext,hs.rs1_env,← hs.csr,volOf]
  cases ha : i.csrAccess x.rs1Fwd with
  | some a =>
    obtain ⟨op,addr,rd,src,rfl⟩ := csrAccess_some ha
    rw [csrAccess_eq hh] at ha
    obtain rfl := Option.some.inj ha
    have hc : x.q.ctrl.isCsr = true := by rw [hh.ctrl]; cases op <;> rfl
    have hm : x.mret = false := by rw [hmret]; cases op <;> rfl
    have hwen : x.csrWen = x.csrAccess.writes := Ex.csrWen_eq hh.valid hh.decoded hc
    cases hw : x.csrAccess.writes with
    | true =>
      have hleg : Csr.illegal x.csrAddr x.csrWen = false := by
        have heff := csr_effect (fun _ => 0) hh
        refine Bool.eq_false_iff.mpr fun hn => ?_
        rw [if_pos ((csrIllegal_iff hh).mp hn),ht] at heff
        cases heff.1
      have hd : Csr.doWrite x.csrAddr x.csrWen = true :=
        (Csr.doWrite_iff _ _).mpr ⟨hleg,hwen.trans hw⟩
      have hput : (Csr.view x.csr).put x.csrAddr (x.csrAccess.op.apply
          ((Csr.view x.csr).read (Csr.rdata x.csr x.seedRdata) x.csrAddr) x.csrSrc) =
          (Csr.view x.csr).put x.csrAddr x.csrWdata := by
        rw [Csr.view_read,Ex.csrWdata_eq]
        rfl
      exact (if_pos hw).trans (hput.trans
        (Csr.view_write x.csr (i := x.csrIn (!x.trap) 0) htrap hm hd).symm)
    | false =>
      have hd : Csr.doWrite x.csrAddr x.csrWen = false := by
        rw [Csr.doWrite,hwen,hw,Bool.false_and,Bool.false_and]
      exact (if_neg (Bool.eq_false_iff.mp hw)).trans
        (Csr.view_keep x.csr (i := x.csrIn (!x.trap) 0) htrap hm hd).symm
  | none =>
    have hd : Csr.doWrite x.csrAddr x.csrWen = false := by
      rw [Csr.doWrite,Ex.csrWen,hh.ctrl,csrAccess_none ha]
      simp
    by_cases hi : i = .mret
    · have hm : x.mret = true := hmret.trans (isMret_iff.mpr hi)
      exact (if_pos hi).trans (Csr.view_mret x.csr htrap hm).symm
    · have hm : x.mret = false := hmret.trans (Bool.eq_false_iff.mpr (mt isMret_iff.mp hi))
      exact (if_neg hi).trans (Csr.view_keep x.csr (i := x.csrIn (!x.trap) 0) htrap hm hd).symm

theorem legal (hs : Sees h w x) (ht : x.trapInfo = none) : ∃ i, Instr.decode w.insn = some i := by
  cases hd : Instr.decode w.insn with
  | some i => exact ⟨i,rfl⟩
  | none =>
    have ho := hs.outcome.1
    rw [outcome_illegal hd,ht] at ho
    cases ho

theorem step (hs : Sees h w x) : h.step (volOf x) w =
    ⟨x.redirectTarget,h.regsNext (Rvntt.outcome x w.mem).dest,
      Csr.view (Csr.next x.csr (x.csrIn (!x.trap) 0))⟩ := by
  obtain ⟨ht,hdest,hnext⟩ := hs.outcome
  rcases hx : x.trapInfo with _ | ⟨cause,val⟩
  · obtain ⟨i,hi⟩ := hs.legal hx
    rw [(step_retired hi (ht.trans hx)).1,hdest,hnext,hs.csrNext hi hx]
  · have htrap : x.trap = true := by rw [Ex.trap,hx]; rfl
    have hnone : (Rvntt.outcome x w.mem).dest = none := by rw [Rvntt.outcome,htrap]; rfl
    have hcsr : Csr.view (Csr.next x.csr (x.csrIn (!x.trap) 0)) = h.csr.enter h.pc cause val := by
      rw [Csr.view_trap _ htrap,hs.csr]
      change h.csr.enter x.q.pc (x.trapInfo.getD (0,0)).1 (x.trapInfo.getD (0,0)).2 = _
      rw [hx,hs.q]
      rfl
    rw [(step_trap (ht.trans hx)).1,hnext,hnone,hcsr]
    rfl

theorem store (hs : Sees h w x) : Performs x (h.store (volOf x) w) := by
  obtain ⟨ht,_,_⟩ := hs.outcome
  rcases hx : x.trapInfo with _ | ⟨cause,val⟩
  · obtain ⟨i,hi⟩ := hs.legal hx
    rw [(step_retired hi (ht.trans hx)).2.1,← hs.env]
    exact performs_stores w.mem (hs.holds hi) hx
  · rw [(step_trap (ht.trans hx)).2.1]
    change x.storing = false
    rw [Ex.storing,Ex.trap,hx]
    simp

theorem event (hs : Sees h w x) :
    (h.event (volOf x) w).commit = (if x.trap then none
      else some ⟨x.q.pc,x.q.insn,(Rvntt.outcome x w.mem).dest.filter fun d => d.1 != 0⟩) ∧
    (h.event (volOf x) w).trap = if x.trap then some x.q.pc else none := by
  obtain ⟨ht,hdest,_⟩ := hs.outcome
  have hpc : x.q.pc = h.pc := by rw [hs.q]; rfl
  rcases hx : x.trapInfo with _ | ⟨cause,val⟩
  · obtain ⟨i,hi⟩ := hs.legal hx
    have htrap : x.trap = false := by rw [Ex.trap,hx]; rfl
    rw [(step_retired hi (ht.trans hx)).2.2,hdest,htrap,hs.insn,hpc]
    exact ⟨rfl,rfl⟩
  · have htrap : x.trap = true := by rw [Ex.trap,hx]; rfl
    rw [(step_trap (ht.trans hx)).2.2,htrap,hpc]
    exact ⟨rfl,rfl⟩

end Hart.Sees

theorem Hart.regsNext_update (h : Hart) (t w : Bool) (rd : BitVec 5) (v : Word) :
    h.regsNext (if t || !w then none else some (rd,v)) =
      if !t && w && rd != 0 then Function.update h.regs rd v else h.regs := by
  cases t with
  | true => rfl
  | false =>
    cases w with
    | false => rfl
    | true =>
      funext q
      by_cases hz : rd = 0#5
      · simp [regsNext,hz]
      · simp [regsNext,hz,Function.update_apply]

theorem dest_filter (w : Bool) (rd : BitVec 5) (v : Word) :
    (if (false || !w) = true then none else some (rd,v)).filter (fun d => d.1 != 0) =
      if (!false && w && rd != 0) = true then some (rd,v) else none := by
  cases w with
  | false => rfl
  | true => simp [Option.filter]

namespace Machine

variable {aw : Nat} {base : Word}

def of (s : Seq.State aw) : Machine aw :=
  ⟨⟨s.pc,s.regs,Csr.view {toArch := s.csr}⟩,byteAt s.mem⟩

section step

variable {s : Seq.State aw} (e : Seq.Env)

theorem fetch_of (hb : base.toNat % 4 = 0) (hp : Aligned s.pc) :
    (of s).fetch base = Seq.fetch base s := by
  rw [Seq.fetch,word_eq_portWord hb s.mem s.pc,portWord,Ref.concat_extract hp]
  rfl

theorem sees_of (hb : base.toNat % 4 = 0) (hp : Aligned s.pc) :
    (of s).toHart.Sees ((of s).view base) (Seq.exec base s e) := by
  have hf : ((of s).view base).insn = Seq.fetch base s := fetch_of hb hp
  refine ⟨?_,?_,?_,?_⟩
  · rw [hf]; rfl
  · rw [hf]; rfl
  · rw [hf]; rfl
  · funext r
    exact (Csr.Reg.value_arch r _).symm

theorem dest_of (hb : base.toNat % 4 = 0) :
    let x := Seq.exec base s e
    (Rvntt.outcome x ((of s).bytes base)).dest =
      if x.trap || !x.q.ctrl.regWrite then none
      else some (x.q.rdAddr,Seq.value base s x) := by
  intro x
  rw [Seq.value,word_eq_portWord hb s.mem x.memAddr]
  rfl

/-- A step of the sequential machine is one of the machine of the specification. -/
theorem step_of (hb : base.toNat % 4 = 0) (hp : Aligned s.pc) :
    (of s).step base (volOf (Seq.exec base s e)) = of (Seq.step base s e) := by
  have hs := sees_of e hb hp
  have hregs : (of s).regsNext (Rvntt.outcome (Seq.exec base s e) ((of s).bytes base)).dest =
      (Seq.step base s e).regs := by
    rw [dest_of e hb,Hart.regsNext_update]
    rfl
  have hcsr : Csr.view (Csr.next (Seq.exec base s e).csr
      ((Seq.exec base s e).csrIn (!(Seq.exec base s e).trap) 0)) =
      (of (Seq.step base s e)).csr := funext fun r => (Csr.Reg.value_arch r _).symm
  have hmem : (of s).memNext base ((of s).toHart.store (volOf (Seq.exec base s e))
      ((of s).view base)) = (of (Seq.step base s e)).mem := by
    funext j
    exact (DataPort.byteAt_next hb ⟨s.mem,0,0⟩ (i := ⟨Seq.exec base s e,0⟩) hs.store j).symm
  rw [step,hs.step,hmem,hcsr]
  exact congrArg (fun f => Machine.mk ⟨_,f,_⟩ _) hregs

theorem event_of (hb : base.toNat % 4 = 0) (hp : Aligned s.pc) :
    let ev := (of s).event base (volOf (Seq.exec base s e))
    ev.commit = Seq.retire base s (Seq.exec base s e) ∧
      ev.trap = if (Seq.exec base s e).trap then some s.pc else none := by
  obtain ⟨hc,ht⟩ := (sees_of e hb hp).event
  refine ⟨?_,ht⟩
  have hd : (Rvntt.outcome (Seq.exec base s e) ((of s).view base).mem).dest = _ := dest_of e hb
  rw [hd] at hc
  refine hc.trans ?_
  rw [Seq.retire]
  cases htrap : (Seq.exec base s e).trap with
  | true => rfl
  | false => rw [dest_filter,Seq.writes,htrap]

theorem of_init (resetPc : Word) (mem : BitVec aw → Word) :
    of (Seq.init resetPc mem) = reset resetPc (byteAt mem) := by
  change Machine.mk ⟨_,_,Csr.view {}⟩ _ = _
  rw [Csr.view_reset]
  rfl

end step

end Machine

end Isa

/-! ### The core -/

namespace SimTop

open Core (exDone archRegs archPc)

section run

variable {aw : Nat} (base resetPc : Word) (ram : Ram aw) (x : Nat → In)

def trapAt (t : Nat) : Option Word :=
  if exDone (core base resetPc ram x t) && Core.exTrap (core base resetPc ram x t) then
    some (core base resetPc ram x t).idExQ.pc
  else none

/-- What the program has made of registers, memory and CSRs up to a cycle. -/
def arch (t : Nat) : Isa.Machine aw where
  pc := archPc resetPc (ports base resetPc ram x) t
  regs := archRegs (core base resetPc ram x t) (ports base resetPc ram x t).dmemRdata
  csr := Csr.view (core base resetPc ram x t).csr
  mem := byteAt (run base resetPc ram x t).ram.mem

variable {base resetPc ram x}

theorem reference_of (hns : NoFetchedStore base resetPc ram x) (t : Nat) :
    Isa.Machine.of (reference base resetPc ram x t) = arch base resetPc ram x t := by
  have h := run_matches hns t
  have hc : (Isa.Machine.of (reference base resetPc ram x t)).csr =
      (arch base resetPc ram x t).csr := by
    funext r
    change r.value {toArch := (reference base resetPc ram x t).csr} = _
    rw [h.csr]
    exact Csr.Reg.value_arch r _
  rw [Isa.Machine.of,h.pc,h.regs,h.mem]
  exact congrArg (fun c => Isa.Machine.mk ⟨_,_,c⟩ _) hc

variable (base resetPc ram x) in
def volAt (t : Nat) : Isa.Volatile :=
  Isa.volOf (Seq.exec base (reference base resetPc ram x t) (envOf (core base resetPc ram x t)))

variable (base resetPc ram x) in
def finishedBy (t : Nat) : Nat := Nat.count (fun u => exDone (core base resetPc ram x u) = true) t

theorem finishedBy_done {t : Nat} (hd : exDone (core base resetPc ram x t) = true) :
    finishedBy base resetPc ram x (t+1) = finishedBy base resetPc ram x t+1 :=
  Nat.count_succ_eq_succ_count_iff.mpr hd

theorem finishedBy_wait {t : Nat} (hd : ¬exDone (core base resetPc ram x t) = true) :
    finishedBy base resetPc ram x (t+1) = finishedBy base resetPc ram x t :=
  Nat.count_succ_eq_count_iff.mpr hd

theorem reference_wait {t : Nat} (hd : ¬exDone (core base resetPc ram x t) = true) :
    reference base resetPc ram x (t+1) = reference base resetPc ram x t := by
  have he : envAt base resetPc ram x t = none := by simp [envAt,hd]
  rw [reference,envs,Clocked.events_succ_none he]
  rfl

theorem reference_done {t : Nat} (hd : exDone (core base resetPc ram x t) = true) :
    reference base resetPc ram x (t+1) =
      Seq.step base (reference base resetPc ram x t) (envOf (core base resetPc ram x t)) := by
  have he : envAt base resetPc ram x t = some (envOf (core base resetPc ram x t)) := by
    simp [envAt,hd]
  rw [reference,envs,Clocked.events_succ_some he,Seq.run_concat]
  rfl

/-- The cycle in which an instruction finishes is one step. -/
theorem of_done (hb : base.toNat % 4 = 0) (hr : Aligned resetPc)
    (hns : NoFetchedStore base resetPc ram x) {t : Nat}
    (hd : exDone (core base resetPc ram x t) = true) :
    let m := Isa.Machine.of (reference base resetPc ram x t)
    let ev := m.event base (volAt base resetPc ram x t)
    m.step base (volAt base resetPc ram x t) = .of (reference base resetPc ram x (t+1)) ∧
      commitAt base resetPc ram x (t+2) = ev.commit ∧ trapAt base resetPc ram x t = ev.trap := by
  let s := reference base resetPc ram x t
  let e := envOf (core base resetPc ram x t)
  have hm := run_matches hns t
  have hp : Aligned s.pc := by
    rw [hm.pc]
    exact Predicted.archPc_aligned hr _ t
  have hi := insn_eq hns (fun u _ => run_matches hns u) hd
  have hag := agree hm hd hi
  obtain ⟨hcommit,htrap⟩ := Isa.Machine.event_of e hb hp
  refine ⟨?_,?_,?_⟩
  · rw [reference_done hd]
    exact Isa.Machine.step_of e hb hp
  · exact (commit_eq hm hd hi).trans hcommit.symm
  · have hpc : (core base resetPc ram x t).idExQ.pc = s.pc := hag.pc
    refine Eq.trans ?_ htrap.symm
    rw [← hag.trap,trapAt,hd,Bool.true_and,hpc]
    rfl

theorem commitAt_of_not_done {t : Nat} (hd : ¬exDone (core base resetPc ram x t) = true) :
    commitAt base resetPc ram x (t+2) = none := by
  rw [← Option.not_isSome_iff_eq_none,commitAt,Core.commit_two,Core.retires]
  simp [hd]

theorem commitAt_delayed : commitAt base resetPc ram x =
    Clocked.delayed 2 fun t => commitAt base resetPc ram x (t+2) := by
  funext t
  match t with
  | 0 | 1 => rfl
  | t+2 => exact (Clocked.delayed_add 2 (fun t => commitAt base resetPc ram x (t+2)) t).symm

variable (base resetPc ram x) in
theorem exists_vol :
    ∃ vol : Nat → Isa.Volatile, (∀ k, (vol k).Ok) ∧
      ∀ t, exDone (core base resetPc ram x t) = true →
        vol (finishedBy base resetPc ram x t) = volAt base resetPc ram x t := by
  refine ⟨fun k => volAt base resetPc ram x
    (Nat.nth (fun u => exDone (core base resetPc ram x u) = true) k),
    fun k => Csr.rdata_ok _ _,fun t hd => ?_⟩
  exact congrArg _ (Nat.nth_count hd)

variable (base resetPc ram x) in
/-- The run of the machine that a run of the core is, cycle by cycle. -/
structure Implements (vol : Nat → Isa.Volatile) : Prop where
  ok : ∀ k, (vol k).Ok
  arch : ∀ t, arch base resetPc ram x t =
    Isa.run base (.reset resetPc (byteAt ram.mem)) vol (finishedBy base resetPc ram x t)
  commitAt : ∀ t, exDone (core base resetPc ram x t) = true → commitAt base resetPc ram x (t+2) =
    (Isa.eventAt base (.reset resetPc (byteAt ram.mem)) vol (finishedBy base resetPc ram x t)).commit
  trapAt : ∀ t, exDone (core base resetPc ram x t) = true → trapAt base resetPc ram x t =
    (Isa.eventAt base (.reset resetPc (byteAt ram.mem)) vol (finishedBy base resetPc ram x t)).trap

theorem exists_implements (hb : base.toNat % 4 = 0) (hr : Aligned resetPc)
    (hns : NoFetchedStore base resetPc ram x) : ∃ vol, Implements base resetPc ram x vol := by
  obtain ⟨vol,hok,hvol⟩ := exists_vol base resetPc ram x
  let m := Isa.Machine.reset resetPc (byteAt ram.mem)
  have hrun : ∀ t, Isa.Machine.of (reference base resetPc ram x t) =
      Isa.run base m vol (finishedBy base resetPc ram x t) := by
    intro t
    induction t with
    | zero => exact Isa.Machine.of_init resetPc ram.mem
    | succ t ih =>
      by_cases hd : exDone (core base resetPc ram x t) = true
      · rw [finishedBy_done hd]
        change _ = (Isa.run base m vol (finishedBy base resetPc ram x t)).step base _
        rw [← ih,hvol t hd]
        exact (of_done hb hr hns hd).1.symm
      · rw [reference_wait hd,finishedBy_wait hd]
        exact ih
  have hev : ∀ t, exDone (core base resetPc ram x t) = true →
      Isa.eventAt base m vol (finishedBy base resetPc ram x t) =
        (Isa.Machine.of (reference base resetPc ram x t)).event base
          (volAt base resetPc ram x t) := by
    intro t hd
    rw [Isa.eventAt,hvol t hd,← hrun t]
  refine ⟨vol,hok,fun t => (reference_of hns t).symm.trans (hrun t),fun t hd => ?_,fun t hd => ?_⟩
  · rw [(of_done hb hr hns hd).2.1,hev t hd]
  · rw [(of_done hb hr hns hd).2.2,hev t hd]

theorem Implements.commits {vol : Nat → Isa.Volatile} (h : Implements base resetPc ram x vol)
    (t : Nat) : Clocked.events (SimTop.commitAt base resetPc ram x) (t+2) =
      Isa.commits base (.reset resetPc (byteAt ram.mem)) vol (finishedBy base resetPc ram x t) := by
  rw [commitAt_delayed,Clocked.events_delayed]
  exact Clocked.events_count _ (fun u hd => h.commitAt u hd) (fun u hd => commitAt_of_not_done hd) t

theorem Implements.traps {vol : Nat → Isa.Volatile} (h : Implements base resetPc ram x vol)
    (t : Nat) : Clocked.events (SimTop.trapAt base resetPc ram x) t =
      Isa.traps base (.reset resetPc (byteAt ram.mem)) vol (finishedBy base resetPc ram x t) :=
  Clocked.events_count _ (fun u hd => h.trapAt u hd) (fun u hd => by simp [SimTop.trapAt,hd]) t

/-- Every run of the core from reset, on a program that stores over none of its own code,
is a run of the machine of the specification. The instructions that have finished in EX
are its steps, the lines of the commit port and the traps those of its steps, and program
counter, registers, memory and CSRs its state. -/
theorem implements_isa (hb : base.toNat % 4 = 0) (hr : Aligned resetPc)
    (hns : NoFetchedStore base resetPc ram x) :
    ∃ vol : Nat → Isa.Volatile, (∀ k, (vol k).Ok) ∧ ∀ t,
      let m := Isa.Machine.reset resetPc (byteAt ram.mem)
      let n := finishedBy base resetPc ram x t
      arch base resetPc ram x t = Isa.run base m vol n ∧
      Clocked.events (commitAt base resetPc ram x) (t+2) = Isa.commits base m vol n ∧
      Clocked.events (trapAt base resetPc ram x) t = Isa.traps base m vol n := by
  obtain ⟨vol,h⟩ := exists_implements hb hr hns
  exact ⟨vol,h.ok,fun t => ⟨h.arch t,h.commits t,h.traps t⟩⟩

end run

theorem implements_isa_storeLoop :
    ∃ vol : Nat → Isa.Volatile, (∀ k, (vol k).Ok) ∧ ∀ t,
      let m := Isa.Machine.reset 0x80000000 (byteAt storeLoop.mem)
      let n := finishedBy 0x80000000 0x80000000 storeLoop (fun _ => ⟨false,{}⟩) t
      arch 0x80000000 0x80000000 storeLoop (fun _ => ⟨false,{}⟩) t =
        Isa.run 0x80000000 m vol n ∧
      Clocked.events (commitAt 0x80000000 0x80000000 storeLoop fun _ => ⟨false,{}⟩) (t+2) =
        Isa.commits 0x80000000 m vol n ∧
      Clocked.events (trapAt 0x80000000 0x80000000 storeLoop fun _ => ⟨false,{}⟩) t =
        Isa.traps 0x80000000 m vol n :=
  implements_isa (by decide) (by decide) (noFetchedStore_storeLoop fun _ => ⟨false,{}⟩)

end SimTop

end Rvntt
