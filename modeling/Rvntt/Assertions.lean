import Rvntt.Learnt
import Rvntt.Interlock
import Rvntt.Lib.Bits
set_option autoImplicit false

/-!
The design assertions of `rvntt_core` and `rvntt_bpred`, in every cycle of every run.
-/

namespace Rvntt

namespace Core

def dbgUnsupported (s : State) : Bool := s.memWbQ.valid && (decode s.memWbQ.insn).isIllegal

/-- The assertions under `RISCV_FORMAL`, in the order of the source. -/
structure Asserted (s : State) (i : In) : Prop where
  addrAdderMatchesAlu : s.idExQ.valid = true →
    (s.idExQ.ctrl.memRead || s.idExQ.ctrl.memWrite) = true → (ex s).memAddr = (ex s).aluY
  jalrTargetMatchesAlu : s.idExQ.valid = true → s.idExQ.ctrl.jalr = true →
    (ex s).memAddr = (ex s).aluY
  stallsAreDisjoint : ¬(idStall s i = true ∧ exStall s = true)
  pipeAdvancesTogether : exStall s = false → idStall s i = false → exRedirect s = false →
    exTrap s = false ∧ exStall s = false
  noBpUpdateUnderFrontStall : ¬(frontStall s i = true ∧ exBpUpd s = true)
  zktOnlyMuldivStalls : exStall s = true → s.idExQ.ctrl.isMuldiv = true
  fwdPrecomputeMatchesA : s.idExQ.valid = true →
    s.idExQ.fwdA = forward (exProducers s) s.idExQ.ctrl.usesRs1 s.idExQ.rs1Addr
  fwdPrecomputeMatchesB : s.idExQ.valid = true →
    s.idExQ.fwdB = forward (exProducers s) s.idExQ.ctrl.usesRs2 s.idExQ.rs2Addr
  bpUpdPcAligned : exBpUpd s = true → Aligned s.idExQ.pc
  pcTargetMatchesAlu : exBpUpd s = true → s.idExQ.ctrl.jalr = false →
    (ex s).pcTarget = (ex s).aluY
  bpUpdTargetAligned : exBpUpd s = true → Aligned (ex s).jumpTarget ∨ (ex s).ctrlXfer = false

theorem memAddr_aluY {x : Ex} (hd : Decoded x.q)
    (h : (x.q.ctrl.memRead || x.q.ctrl.memWrite || x.q.ctrl.jalr) = true) :
    x.memAddr = x.aluY := by
  have hs := hd.ctrl ▸ decode_shape x.q.insn
  have hc : x.q.ctrl.aluOp = .add ∧ x.q.ctrl.aluSrcA = .rs1 ∧ x.q.ctrl.aluSrcB = .imm := by
    generalize x.q.ctrl = c at hs h
    cases hs with
    | jalr => exact ⟨rfl,rfl,rfl⟩
    | load => exact ⟨rfl,rfl,rfl⟩
    | store => exact ⟨rfl,rfl,rfl⟩
    | _ => cases h
  rw [Ex.aluY,Ex.aluA,Ex.aluB,hc.1,hc.2.1,hc.2.2]
  rfl

theorem pcTarget_aluY {x : Ex} (hd : Decoded x.q) (ht : x.q.ctrl.transfer = true)
    (hj : x.q.ctrl.jalr = false) : x.pcTarget = x.aluY := by
  have hc : x.q.ctrl.aluOp = .add ∧ x.q.ctrl.aluSrcA = .pc ∧ x.q.ctrl.aluSrcB = .imm := by
    rcases decoded_transfer hd ht with h | h | h
    · rw [h]
      exact ⟨rfl,rfl,rfl⟩
    · rw [h] at hj
      cases hj
    · rw [h]
      exact ⟨rfl,rfl,rfl⟩
  rw [Ex.aluY,Ex.aluA,Ex.aluB,hc.1,hc.2.1,hc.2.2]
  rfl

theorem exBpUpd_parts {s : State} (h : exBpUpd s = true) : s.idExQ.valid = true ∧
    exStall s = false ∧ exTrap s = false ∧ s.idExQ.ctrl.transfer = true := by
  simp only [exBpUpd,Bool.and_eq_true,Bool.not_eq_true'] at h
  exact ⟨h.1.1.1,h.1.1.2,h.1.2,h.2⟩

theorem no_upd_under_stall {s : State} {i : In} (hd : s.idExQ.valid = true → Decoded s.idExQ)
    (hf : frontStall s i = true) : exBpUpd s = false :=
  Predicted.quiet_of_stall hd hf

section run

variable {resetPc : Word} (x : Nat → In)

theorem dbgUnsupported_run (t : Nat) : dbgUnsupported (run resetPc x t) = false := by
  match t with
  | 0 => rfl
  | 1 => rfl
  | t+2 =>
    obtain ⟨hv,hw⟩ := memWbQ_two resetPc x t
    rw [dbgUnsupported]
    cases hm : (run resetPc x (t+2)).memWbQ.valid with
    | false => rfl
    | true =>
      rw [hm] at hv
      have hret : exDone (run resetPc x t) = true ∧ exTrap (run resetPc x t) = false := by
        simpa [retires] using hv.symm
      have hq := (exDone_valid hret.1).1
      have hdec := run_decoded resetPc x t hq
      rw [(hw hm).2,← hdec.ctrl,Bool.true_and,Bool.eq_false_iff]
      intro hi
      have htrap : exTrap (run resetPc x t) = true := by
        have hvalid : (ex (run resetPc x t)).q.valid = true := hq
        have hill : (ex (run resetPc x t)).q.ctrl.isIllegal = true := hi
        simp [exTrap,Ex.trap,Ex.trapInfo,hvalid,hill]
      exact Bool.false_ne_true (hret.2.symm.trans htrap)

theorem assertions_run (hr : Aligned resetPc) (t : Nat) : Asserted (run resetPc x t) (x t) := by
  have hdec := run_decoded resetPc x t
  have hops := run_operands resetPc x t
  have hpc : (run resetPc x t).idExQ.valid = true → Aligned (run resetPc x t).idExQ.pc := by
    intro hv
    rw [(run_flow resetPc x t).exPc hv]
    exact Predicted.archPc_aligned hr x t
  generalize run resetPc x t = s at hdec hops hpc
  refine ⟨fun hv hm => ?_,fun hv hj => ?_,fun h => ?_,fun hs _ hr => ?_,fun h => ?_,fun hs => ?_,
    fun hv => (hops.a hv).sel,fun hv => (hops.b hv).sel,fun h => ?_,fun h hj => ?_,fun h => ?_⟩
  · exact memAddr_aluY (x := ex s) (hdec hv) (by simp [show (ex s).q = s.idExQ from rfl,hm])
  · exact memAddr_aluY (x := ex s) (hdec hv) (by simp [show (ex s).q = s.idExQ from rfl,hj])
  · exact Bool.false_ne_true ((stalls_disjoint _ hdec h.1).symm.trans h.2)
  · exact ⟨(exRedirect_false hs hr).1,hs⟩
  · exact Bool.false_ne_true ((no_upd_under_stall hdec h.1).symm.trans h.2)
  · exact (exStall_req hs).2
  · exact hpc (exBpUpd_parts h).1
  · obtain ⟨hv,_,_,ht⟩ := exBpUpd_parts h
    exact pcTarget_aluY (x := ex s) (hdec hv) ht hj
  · obtain ⟨hv,_,hn,ht⟩ := exBpUpd_parts h
    cases hx : (ex s).ctrlXfer with
    | false => exact .inr rfl
    | true =>
      refine .inl (jumpTarget_aligned (x := ex s) (hdec hv) (hpc hv) hx ?_)
      exact (transfer_trap (x := ex s) hv (hdec hv) ht).1.symm.trans hn

/-- Whatever the two ports return and whatever the predictor answers, no assertion of the
core ever fires, and no illegal instruction reaches WB. -/
theorem assertions_hold (hr : Aligned resetPc) (t : Nat) :
    Asserted (run resetPc x t) (x t) ∧ dbgUnsupported (run resetPc x t) = false :=
  ⟨assertions_run x hr t,dbgUnsupported_run x t⟩

end run

theorem assertions_hold_misalignedLoad :
    Asserted (run 0x80000000 misalignedLoad 3) (misalignedLoad 3) ∧
      dbgUnsupported (run 0x80000000 misalignedLoad 3) = false :=
  assertions_hold misalignedLoad (by decide) 3

end Core

/-! ### The predictor -/

namespace Bpred

variable {idxW rasW : Nat}

/-- The assertions under `FORMAL`; those that look at the cycle before are on both sides of
its edge. -/
structure Asserted (s : State idxW rasW) (i : In) : Prop where
  indexAndTagAreTheAddress :
    ((tag i.lookupPc : BitVec (tagW idxW)) ++ (index i.lookupPc : BitVec idxW)).toNat =
      (i.lookupPc.extractLsb' 2 30).toNat
  targetAligned : (next s i).predTakenQ = true → Aligned (next s i).predTargetQ
  takenNeedsAHit : (next s i).predTakenQ = true → i.hold = false →
    hitAt s i.lookupPc = true
  holdFreezes : i.hold = true → i.flush = false → pred (next s i) = pred s
  rasCountBounded : (next s i).rasCntQ.toNat ≤ 2^rasW
  counterUp : i.upd.valid = true → upIsbr i.upd = true → hitAt s i.upd.pc = true →
    i.upd.taken = true → entCnt (s.btbQ (index i.upd.pc)) ≤ cntTaken s i.upd
  counterDown : i.upd.valid = true → upIsbr i.upd = true → hitAt s i.upd.pc = true →
    i.upd.taken = false → cntNtaken s i.upd ≤ entCnt (s.btbQ (index i.upd.pc))

theorem tag_index_toNat (pc : Word) :
    ((tag pc : BitVec (tagW idxW)) ++ (index pc : BitVec idxW)).toNat =
      (pc.extractLsb' 2 30).toNat := by
  have hpc := pc.isLt
  rw [Bits.append_toNat,tag,index,Bits.extract_toNat,Bits.extract_toNat,Bits.extract_toNat,
    Nat.pow_add,← Nat.div_div_eq_div_mul]
  have hq : pc.toNat/2^2 < 2^30 := by omega
  rw [Nat.mod_eq_of_lt hq]
  have hd : pc.toNat/2^2/2^idxW < 2^(tagW idxW) := by
    rw [Nat.div_lt_iff_lt_mul (Nat.two_pow_pos _),← Nat.pow_add]
    exact Nat.lt_of_lt_of_le hq (Nat.pow_le_pow_right (by omega) (by rw [tagW]; omega))
  rw [Nat.mod_eq_of_lt hd]
  exact Nat.div_add_mod _ _

theorem cntTaken_ge {s : State idxW rasW} {u : Update} (hb : upIsbr u = true)
    (hh : hitAt s u.pc = true) : entCnt (s.btbQ (index u.pc)) ≤ cntTaken s u := by
  have h : ∀ c : BitVec 2, c ≤ if c = 0b11 then 0b11 else c+0b01 := by decide
  simp only [cntTaken,hh,hb,Bool.and_self,if_true]
  exact h _

theorem cntNtaken_le (s : State idxW rasW) (u : Update) :
    cntNtaken s u ≤ entCnt (s.btbQ (index u.pc)) := by
  have h : ∀ c : BitVec 2, (if c = 0b00 then 0b00 else c-0b01) ≤ c := by decide
  exact h _

theorem calls_aligned {cap : Nat} {x : Nat → In}
    (hx : ∀ t, (x t).upd.valid = true → Aligned (x t).upd.pc) (t : Nat) :
    ∀ a ∈ calls cap x t, Aligned a := by
  induction t with
  | zero => exact fun a h => absurd h List.not_mem_nil
  | succ t ih =>
    intro a h
    rw [calls] at h
    split at h
    · rename_i hc
      rw [Bool.and_eq_true] at hc
      rcases List.mem_cons.mp (List.mem_of_mem_take h) with rfl | h
      · exact (hx t hc.1).add_four
      · exact ih a h
    · split at h
      · exact ih a (List.mem_of_mem_tail h)
      · exact ih a h

theorem next_pred {s : State idxW rasW} {i : In} (h : (next s i).predTakenQ = true) :
    (i.hold = true ∧ i.flush = false ∧ s.predTakenQ = true ∧
      (next s i).predTargetQ = s.predTargetQ) ∨
    (takenC s i.lookupPc = true ∧ (next s i).predTargetQ = targetC s i.lookupPc) := by
  by_cases hh : (!i.hold || i.flush) = true
  · simp only [next,hh,if_true,Bool.and_eq_true] at h ⊢
    exact .inr ⟨h.1,trivial⟩
  · simp only [next,if_neg hh] at h ⊢
    simp only [Bool.or_eq_true,Bool.not_eq_true',not_or,Bool.not_eq_false,Bool.not_eq_true] at hh
    exact .inl ⟨hh.1,hh.2,h,rfl⟩

theorem targetC_aligned {s : State idxW rasW} {pc : Word} (hs : ∀ a ∈ stack s, Aligned a)
    (h : takenC s pc = true) : Aligned (targetC s pc) := by
  by_cases hk : lkKind s pc = bpRet
  · have hne : s.rasCntQ ≠ 0 := by
      rw [takenC,hk,if_neg (show bpRet ≠ bpBranch by decide),if_pos rfl,Bool.and_eq_true] at h
      simpa using h.2
    have htop : (stack s).head? = some (rasTop s) := by rw [top_stack,if_neg hne]
    rw [targetC,if_pos hk]
    exact hs _ (List.mem_of_mem_head? htop)
  · rw [targetC,if_neg hk]
    exact aligned_concat _

section run

variable (btb : BitVec idxW → Entry idxW) (ras : BitVec rasW → Word) {x : Nat → In}

theorem run_target_aligned (hx : ∀ t, (x t).upd.valid = true → Aligned (x t).upd.pc) (t : Nat) :
    (run btb ras x t).predTakenQ = true → Aligned (run btb ras x t).predTargetQ := by
  induction t with
  | zero => exact fun h => absurd h Bool.false_ne_true
  | succ t ih =>
    intro h
    rcases next_pred h with ⟨_,_,hp,ht⟩ | ⟨hp,ht⟩
    · exact (congrArg Aligned ht).mpr (ih hp)
    · refine (congrArg Aligned ht).mpr (targetC_aligned ?_ hp)
      rw [(run_stack btb ras x t).1]
      exact calls_aligned hx t

theorem asserted_run (hx : ∀ t, (x t).upd.valid = true → Aligned (x t).upd.pc) (t : Nat) :
    Asserted (run btb ras x t) (x t) := by
  refine ⟨tag_index_toNat _,run_target_aligned btb ras hx (t+1),
    fun h hh => ?_,fun hh hf => ?_,(run_stack btb ras x (t+1)).2,
    fun _ hb hh _ => cntTaken_ge hb hh,fun _ _ _ _ => cntNtaken_le _ _⟩
  · rcases next_pred h with ⟨hn,_⟩ | ⟨ht,_⟩
    · exact absurd (hn.symm.trans hh) (by decide)
    · by_contra hm
      simp [takenC,hm] at ht
  · simp [next,pred,update,hh,hf]

end run

end Bpred

namespace Predicted

variable {resetPc : Word} (p : PowerUp) (x : Nat → In)

/-- What the core tells the predictor keeps the interface's contract for the address, so
that the predictor's assertions hold with nothing assumed. -/
theorem bpred_assertions_hold (hr : Aligned resetPc) (t : Nat) :
    ((bpredIn (run resetPc p x t) (x t)).upd.valid = true →
      Aligned (bpredIn (run resetPc p x t) (x t)).upd.pc) ∧
    Bpred.Asserted (run resetPc p x t).bpred (bpredIn (run resetPc p x t) (x t)) := by
  have hpc : ∀ u, (bpredIn (run resetPc p x u) (x u)).upd.valid = true →
      Aligned (bpredIn (run resetPc p x u) (x u)).upd.pc := by
    intro u hv
    have h := (Core.assertions_run (ports resetPc p x) hr u).bpUpdPcAligned
    rw [← run_core] at h
    exact h hv
  have hrun : (run resetPc p x t).bpred =
      Bpred.run p.btb p.ras (fun u => bpredIn (run resetPc p x u) (x u)) t := by
    induction t with
    | zero => rfl
    | succ t ih => exact congrArg (Bpred.next · _) ih
  refine ⟨hpc t,?_⟩
  rw [hrun]
  exact Bpred.asserted_run p.btb p.ras hpc t

theorem bpred_assertions_hold_jal :
    let s := run 0x80000000 {} (fun _ => ⟨0x008000EF,0,false⟩) 2
    ((bpredIn s ⟨0x008000EF,0,false⟩).upd.valid = true →
      Aligned (bpredIn s ⟨0x008000EF,0,false⟩).upd.pc) ∧
    Bpred.Asserted s.bpred (bpredIn s ⟨0x008000EF,0,false⟩) :=
  bpred_assertions_hold {} (fun _ => ⟨0x008000EF,0,false⟩) (by decide) 2

end Predicted

end Rvntt
