import Rvntt.Timing
set_option autoImplicit false

/-!
What EX reads. The register file lags the instructions that have left EX by two
stages; `archRegs` is the file once those two have drained, and the forwarded
operands are its values.
-/

namespace Rvntt

namespace Core

def memWrites (s : State) (r : BitVec 5) : Bool :=
  s.exMemQ.valid && s.exMemQ.regWrite && s.exMemQ.rdAddr != 0 && s.exMemQ.rdAddr == r

/-- The register file with MEM and WB drained, `d` being the answer of the data
port. -/
def archRegs (s : State) (d : Word) (r : BitVec 5) : Word :=
  if memWrites s r then s.exMemQ.result d else readPort s r

theorem regsNext_apply (s : State) (r : BitVec 5) : regsNext s r = readPort s r := by
  unfold regsNext readPort
  cases hw : wbWe s with
  | false => simp
  | true =>
    by_cases h : r = s.memWbQ.rdAddr
    · simp [h]
    · simp [h,Ne.symm h]

theorem readPort_next (s : State) (i : In) (r : BitVec 5) :
    readPort (next s i) r = archRegs s i.dmemRdata r := by
  have h : readPort (next s i) r =
      if memWrites s r then s.exMemQ.result i.dmemRdata else regsNext s r := rfl
  rw [h,regsNext_apply,archRegs]

theorem archRegs_of_bubble {s : State} (h : s.exMemQ.valid = false) (d : Word) :
    archRegs s d = readPort s := by
  funext r
  simp [archRegs,memWrites,h]

theorem archRegs_next (s : State) (i : In) (d : Word) (r : BitVec 5) :
    archRegs (next s i) d r = if memWrites (next s i) r then (next s i).exMemQ.result d
      else archRegs s i.dmemRdata r := by
  rw [archRegs,readPort_next]

theorem run_regs_zero (resetPc : Word) (x : Nat → In) (t : Nat) :
    (run resetPc x t).regs 0 = 0 := by
  induction t with
  | zero => rfl
  | succ t ih =>
    have h : (run resetPc x (t+1)).regs 0 = regsNext (run resetPc x t) 0 := rfl
    rw [h,regsNext_apply,readPort,if_neg,ih]
    simp only [wbWe,Bool.and_eq_true,bne_iff_ne,beq_iff_eq,not_and]
    exact fun hw => hw.2

theorem archRegs_zero (resetPc : Word) (x : Nat → In) (t : Nat) (d : Word) :
    archRegs (run resetPc x t) d 0 = 0 := by
  have hm : memWrites (run resetPc x t) 0 = false := by
    cases h : (run resetPc x t).exMemQ.rdAddr == 0 <;> simp [memWrites,bne]
  rw [archRegs,hm,← regsNext_apply]
  exact run_regs_zero resetPc x (t+1)

/-! ### Forwarding -/

structure Src where
  sel : FwdSel
  uses : Bool
  addr : BitVec 5
  data : Word

def srcA (q : IdEx) : Src := ⟨q.fwdA,q.ctrl.usesRs1,q.rs1Addr,q.rs1Data⟩
def srcB (q : IdEx) : Src := ⟨q.fwdB,q.ctrl.usesRs2,q.rs2Addr,q.rs2Data⟩

/-- The registered selection is the one EX would make, no load in MEM feeds the
operand, and in the first cycle the data is the register file's. -/
structure SrcOk (s : State) (r : Src) : Prop where
  sel : r.sel = forward (exProducers s) r.uses r.addr
  noLoad : r.uses = true → memWrites s r.addr = true → s.exMemQ.memRead = false
  data : s.muldiv.activeQ = false → r.data = s.regs r.addr

structure Operands (s : State) : Prop where
  memSel : s.exMemQ.valid = true → s.exMemQ.regWrite = true → s.exMemQ.memRead = false →
    s.exMemQ.resultSel ≠ .mem
  a : s.idExQ.valid = true → SrcOk s (srcA s.idExQ)
  b : s.idExQ.valid = true → SrcOk s (srcB s.idExQ)

theorem fwdData_eq (q : ExMem) (d : Word) (h : q.resultSel ≠ .mem) : q.fwdData = q.result d := by
  unfold ExMem.fwdData ExMem.result
  cases hr : q.resultSel with
  | mem => exact absurd hr h
  | _ => rfl

theorem operand_correct {s : State} (h : Operands s) {r : Src} (hr : SrcOk s r)
    (ha : s.muldiv.activeQ = false) (hu : r.uses = true) (d : Word) :
    operand s r.sel r.data = archRegs s d r.addr := by
  rw [hr.sel,forward,if_pos hu,archRegs]
  by_cases hm : memWrites s r.addr = true
  · have hl := hr.noLoad hu hm
    have hw := hm
    simp only [memWrites,Bool.and_eq_true,bne_iff_ne,beq_iff_eq] at hw
    obtain ⟨⟨⟨hv,hreg⟩,hne⟩,heq⟩ := hw
    have hf : ((exProducers s).memSupplies && (exProducers s).memRdAddr == r.addr) = true := by
      simp only [exProducers,Producers.memSupplies,hv,hreg,hl,heq,Bool.not_false,Bool.and_true,
        Bool.true_and,beq_self_eq_true]
      exact bne_iff_ne.mpr (heq ▸ hne)
    rw [if_pos hf,if_pos hm]
    exact fwdData_eq _ d (h.memSel hv hreg hl)
  · have hf : ¬((exProducers s).memSupplies && (exProducers s).memRdAddr == r.addr) = true := by
      intro hf
      refine hm ?_
      simp only [exProducers,Producers.memSupplies,Bool.and_eq_true] at hf
      simp only [memWrites,Bool.and_eq_true]
      exact ⟨⟨hf.1.1.1,hf.1.2⟩,hf.2⟩
    rw [if_neg hf,if_neg hm]
    have hwb : ((exProducers s).wbSupplies && (exProducers s).wbRdAddr == r.addr) =
        (wbWe s && s.memWbQ.rdAddr == r.addr) := rfl
    rw [hwb,readPort]
    split
    · rfl
    · exact hr.data ha

theorem operands_reset (resetPc : Word) : Operands (reset resetPc) where
  memSel h := by cases h
  a h := by cases h
  b h := by cases h

theorem srcOk_issue {s : State} {i : In} {r : Src}
    (hm : (next s i).exMemQ = (ex s).latch (Muldiv.result s.muldiv))
    (hsel : r.sel = forward (idProducers s) r.uses r.addr)
    (hl : r.uses = true → s.idExQ.valid = true → s.idExQ.ctrl.memRead = true →
      s.idExQ.rdAddr ≠ 0 → s.idExQ.rdAddr ≠ r.addr)
    (hd : r.data = readPort s r.addr) : SrcOk (next s i) r where
  sel := by
    have hp : exProducers (next s i) = idProducers s := by
      unfold exProducers
      rw [hm]
      rfl
    rw [hp]
    exact hsel
  noLoad hu hw := by
    rw [hm]
    simp only [memWrites,hm,Bool.and_eq_true,bne_iff_ne,beq_iff_eq] at hw
    obtain ⟨⟨⟨hv,_⟩,hne⟩,heq⟩ := hw
    cases hr : s.idExQ.ctrl.memRead with
    | false => exact hr
    | true => exact absurd heq (hl hu hv hr hne)
  data _ := by rw [hd,← regsNext_apply]; rfl

/-- Under a multi-cycle stall the producers move one stage and so do the
selections. -/
theorem srcOk_held {s : State} {i : In} {r : Src} (hs : exStall s = true)
    (hm : (next s i).exMemQ = {}) (h : SrcOk s r) :
    SrcOk (next s i) {r with sel := fwdDecay r.sel} where
  sel := by
    have hw : (exProducers (next s i)).memSupplies = false := by
      unfold exProducers
      rw [hm]
      rfl
    have hp : ((exProducers (next s i)).wbSupplies && (exProducers (next s i)).wbRdAddr == r.addr)
        = memWrites s r.addr := rfl
    simp only [forward,hw,Bool.false_and,Bool.false_eq_true,if_false,hp]
    rw [h.sel,forward]
    cases hu : r.uses with
    | false => rfl
    | true =>
      have hmem : ((exProducers s).memSupplies && (exProducers s).memRdAddr == r.addr) =
          memWrites s r.addr := by
        cases hmw : memWrites s r.addr with
        | false =>
          simp only [memWrites] at hmw
          simp only [exProducers,Producers.memSupplies]
          revert hmw
          cases s.exMemQ.valid <;> cases s.exMemQ.regWrite <;> cases s.exMemQ.memRead <;> simp
        | true =>
          have hl := h.noLoad hu hmw
          simp only [memWrites] at hmw
          simpa [exProducers,Producers.memSupplies,hl] using hmw
      rw [hmem]
      cases hmw : memWrites s r.addr with
      | true => rfl
      | false => simp only [if_true,Bool.false_eq_true,if_false]; split <;> rfl
  noLoad _ hw := by simp [memWrites,hm] at hw
  data ha := by rw [activeQ_next,hs] at ha; cases ha

/-- The interlock keeps a load's reader out of EX while the load is there. -/
theorem no_load_feeds {s : State} {i : In} (hv : s.ifIdQ.valid = true)
    (hl : idStall s i = false) (hev : s.idExQ.valid = true)
    (hm : s.idExQ.ctrl.memRead = true) (hne : s.idExQ.rdAddr ≠ 0) :
    ((idCtrl s i).usesRs1 = true → s.idExQ.rdAddr ≠ rs1Field (ifId s i).insn) ∧
      ((idCtrl s i).usesRs2 = true → s.idExQ.rdAddr ≠ rs2Field (ifId s i).insn) := by
  simp only [idStall,hazard,hv,hev,hm,Bool.true_and,bne_iff_ne.mpr hne,Bool.or_eq_false_iff,
    Bool.and_eq_false_iff,beq_eq_false_iff_ne] at hl
  constructor
  · intro hu h
    rcases hl.1 with h1 | h1
    · rw [hu] at h1; cases h1
    · exact h1 h.symm
  · intro hu h
    rcases hl.2 with h1 | h1
    · rw [hu] at h1; cases h1
    · exact h1 h.symm

theorem memSel_latch {s : State} (hd : s.idExQ.valid = true → Decoded s.idExQ) (md : Word) :
    let q := (ex s).latch md
    q.valid = true → q.regWrite = true → q.memRead = false → q.resultSel ≠ .mem := by
  intro q hv _ hm
  have hc : q.resultSel = (decode s.idExQ.insn).resultSel := congrArg Ctrl.resultSel (hd hv).ctrl
  have hr : (decode s.idExQ.insn).memRead = false := by
    rw [← (hd hv).ctrl]
    exact hm
  rw [hc]
  exact (decode_shape _).resultSel_ne_mem hr

theorem operands_next {s : State} (i : In) (hd : s.idExQ.valid = true → Decoded s.idExQ)
    (h : Operands s) : Operands (next s i) := by
  cases edge s i with
  | hold hs _ _ _ hex hm =>
    have hv := (exStall_req hs).1
    refine ⟨?_,?_,?_⟩
    · intro h'; simp [hm] at h'
    · intro _; rw [hex]; exact srcOk_held hs hm (h.a hv)
    · intro _; rw [hex]; exact srcOk_held hs hm (h.b hv)
  | redirect _ _ _ _ _ hex hm =>
    refine ⟨?_,?_,?_⟩
    · rw [hm,exMemNext]
      split
      · intro h'; cases h'
      · exact memSel_latch hd _
    · intro h'; simp [hex] at h'
    · intro h'; simp [hex] at h'
  | loaduse _ _ _ _ _ _ hex hm =>
    refine ⟨?_,?_,?_⟩
    · rw [hm]; exact memSel_latch hd _
    · intro h'; simp [hex] at h'
    · intro h'; simp [hex] at h'
  | advance _ _ hl _ _ _ hex hm =>
    refine ⟨?_,?_,?_⟩
    · rw [hm]; exact memSel_latch hd _
    · intro hv
      rw [hex] at hv ⊢
      exact srcOk_issue hm rfl (fun hu he hr hn => (no_load_feeds hv hl he hr hn).1 hu) rfl
    · intro hv
      rw [hex] at hv ⊢
      exact srcOk_issue hm rfl (fun hu he hr hn => (no_load_feeds hv hl he hr hn).2 hu) rfl

theorem run_operands (resetPc : Word) (x : Nat → In) (t : Nat) : Operands (run resetPc x t) := by
  induction t with
  | zero => exact operands_reset resetPc
  | succ t ih => exact operands_next (x t) (run_decoded resetPc x t) ih

/-! ### The multi-cycle unit's operands -/

/-- While the unit is busy the older instructions have drained, and it works on the
operands of the instruction held in EX. -/
def Working (s : State) : Prop :=
  s.muldiv.activeQ = true →
    s.idExQ.valid = true ∧ s.idExQ.ctrl.isMuldiv = true ∧ s.exMemQ.valid = false ∧
      ∃ k, k+1 ≤ Muldiv.latency s.idExQ.ctrl.muldivOp ∧
        s.muldiv = Muldiv.after s.idExQ.ctrl.muldivOp (readPort s s.idExQ.rs1Addr)
          (readPort s s.idExQ.rs2Addr) k

theorem muldiv_uses {q : IdEx} (hd : Decoded q) (hm : q.ctrl.isMuldiv = true) :
    q.ctrl.usesRs1 = true ∧ q.ctrl.usesRs2 = true := by
  have hc : q.ctrl = {ctrlOp with isMuldiv := true, muldivOp := funct3 q.insn} :=
    (hd.ctrl ▸ decode_shape _).muldiv_eq hm
  rw [hc]
  exact ⟨rfl,rfl⟩

theorem working_next {s : State} (i : In) (hd : s.idExQ.valid = true → Decoded s.idExQ)
    (ho : Operands s) (h : Working s) : Working (next s i) := by
  intro ha
  rw [activeQ_next] at ha
  obtain ⟨hv,hm⟩ := exStall_req ha
  obtain ⟨hu1,hu2⟩ := muldiv_uses (hd hv) hm
  have hreq : (muldivIn s).req = true := by simp [muldivIn,exMdReq,hv,hm]
  have hnd : Muldiv.done s.muldiv (muldivIn s) = false := by
    simp only [exStall,Bool.and_eq_true,Bool.not_eq_true'] at ha
    exact ha.2
  cases edge s i with
  | redirect h' => rw [ha] at h'; cases h'
  | loaduse h' => rw [ha] at h'; cases h'
  | advance h' => rw [ha] at h'; cases h'
  | hold _ _ _ _ hex hmem =>
    rw [hex]
    refine ⟨hv,hm,by rw [hmem],?_⟩
    have hrp : ∀ r, readPort (next s i) r = archRegs s i.dmemRdata r := readPort_next s i
    have hmd : (next s i).muldiv = Muldiv.next s.muldiv (muldivIn s) := rfl
    simp only [heldEx,hrp,hmd]
    cases hact : s.muldiv.activeQ with
    | false =>
      refine ⟨0,(Muldiv.latency_bounds _).1,?_⟩
      rw [Muldiv.next_start hreq hact]
      change Muldiv.load s.idExQ.ctrl.muldivOp (exRs1Fwd s) (exRs2Fwd s) = _
      have hA : exRs1Fwd s = archRegs s i.dmemRdata s.idExQ.rs1Addr :=
        operand_correct ho (ho.a hv) hact hu1 i.dmemRdata
      have hB : exRs2Fwd s = archRegs s i.dmemRdata s.idExQ.rs2Addr :=
        operand_correct ho (ho.b hv) hact hu2 i.dmemRdata
      rw [hA,hB]
      rfl
    | true =>
      obtain ⟨_,_,hbub,k,hk,heq⟩ := h hact
      rw [archRegs_of_bubble hbub]
      have hlt : ¬k+1 = Muldiv.latency s.idExQ.ctrl.muldivOp := by
        intro hlast
        rw [heq,Muldiv.done_after _ _ _ hk hreq,decide_eq_false_iff_not] at hnd
        exact hnd hlast
      refine ⟨k+1,by omega,?_⟩
      rw [Muldiv.next_advance hreq hact hnd,Muldiv.after_succ,← heq]

theorem run_working (resetPc : Word) (x : Nat → In) (t : Nat) : Working (run resetPc x t) := by
  induction t with
  | zero => intro h; cases h
  | succ t ih =>
    exact working_next (x t) (run_decoded resetPc x t) (run_operands resetPc x t) ih

/-! ### The finishing instruction -/

structure Sound (s : State) : Prop where
  decoded : s.idExQ.valid = true → Decoded s.idExQ
  operands : Operands s
  working : Working s

theorem run_sound (resetPc : Word) (x : Nat → In) (t : Nat) : Sound (run resetPc x t) :=
  ⟨run_decoded resetPc x t,run_operands resetPc x t,run_working resetPc x t⟩

theorem Sound.single {s : State} (h : Sound s) (hv : s.idExQ.valid = true)
    (hm : s.idExQ.ctrl.isMuldiv = false) (d : Word) :
    (s.idExQ.ctrl.usesRs1 = true → exRs1Fwd s = archRegs s d s.idExQ.rs1Addr) ∧
      (s.idExQ.ctrl.usesRs2 = true → exRs2Fwd s = archRegs s d s.idExQ.rs2Addr) := by
  have ha : s.muldiv.activeQ = false := by
    cases hact : s.muldiv.activeQ with
    | false => rfl
    | true => rw [(h.working hact).2.1] at hm; cases hm
  exact ⟨fun hu => operand_correct h.operands (h.operands.a hv) ha hu d,
    fun hu => operand_correct h.operands (h.operands.b hv) ha hu d⟩

theorem Sound.multi {s : State} (h : Sound s) (hv : exDone s = true)
    (hm : s.idExQ.ctrl.isMuldiv = true) (d : Word) :
    Muldiv.result s.muldiv = Muldiv.compute s.idExQ.ctrl.muldivOp
      (archRegs s d s.idExQ.rs1Addr) (archRegs s d s.idExQ.rs2Addr) := by
  obtain ⟨hval,hs⟩ := exDone_valid hv
  have hreq : (muldivIn s).req = true := by simp [muldivIn,exMdReq,hval,hm]
  have hdone : Muldiv.done s.muldiv (muldivIn s) = true := by
    simpa [exStall,exMdReq,hval,hm] using hs
  have hact : s.muldiv.activeQ = true := by
    simp only [Muldiv.done,Bool.and_eq_true] at hdone
    exact hdone.1.2
  obtain ⟨_,_,hbub,k,hk,heq⟩ := h.working hact
  rw [heq,Muldiv.done_after _ _ _ hk hreq,decide_eq_true_iff] at hdone
  rw [archRegs_of_bubble hbub,heq,Muldiv.compute,← hdone,Nat.add_sub_cancel]

end Core

end Rvntt
