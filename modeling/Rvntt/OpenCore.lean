import Rvntt.IsaRefinement
set_option autoImplicit false

/-!
The core on any bus: whatever the two ports are given, an instruction that finishes is
a step of the hart on the word and on the memory that it was given.
-/

namespace Rvntt

theorem Ex.Agree.performs {x y : Ex} (h : Agree x y) (hd : Core.Decoded x.q) {a : Access}
    (hp : Performs y a) : Performs x a := by
  cases a with
  | idle => exact h.storing.trans hp
  | load op a =>
    obtain ⟨hv,_,hm,hop,ha,hz⟩ := hp
    exact ⟨h.valid.trans hv,hd,h.ctrl ▸ hm,h.ctrl ▸ hop,(h.memAddr (h.reads.load hm)).trans ha,hz⟩
  | store op a v =>
    obtain ⟨hv,_,hm,hop,ha,h2,hz⟩ := hp
    obtain ⟨hn1,hn2⟩ := h.reads.store hm
    exact ⟨h.valid.trans hv,hd,h.ctrl ▸ hm,h.ctrl ▸ hop,(h.memAddr hn1).trans ha,
      (h.rs2 hn2).trans h2,hz⟩

namespace Core

theorem update_if {α : Type} (c : Bool) (f : BitVec 5 → α) (rd r : BitVec 5) (v : α) :
    (if c then Function.update f rd v else f) r = if c && rd == r then v else f r := by
  cases c with
  | false => rfl
  | true =>
    by_cases hr : r = rd
    · simp [hr]
    · simp [hr,Ne.symm hr]

section run

variable (resetPc : Word) (x : Nat → In)

def hart (t : Nat) : Isa.Hart where
  pc := archPc resetPc x t
  regs := archRegs (run resetPc x t) (x t).dmemRdata
  csr := Csr.view (run resetPc x t).csr

def volatile (t : Nat) : Isa.Volatile :=
  Csr.rdata (run resetPc x t).csr (Seed.rdata (run resetPc x t).seed)

/-- The word was given for this address, one cycle after the address was out. -/
def Delivered (t : Nat) (insn pc : Word) : Prop :=
  ∃ u < t, (run resetPc x u).pcQ = pc ∧ (x (u+1)).imemRdata = insn

/-- What a finishing load is given, as a part of some memory. -/
def LoadReads (t : Nat) (mem : Word → BitVec 8) : Prop :=
  (run resetPc x t).idExQ.ctrl.memRead = true →
    (x (t+1)).dmemRdata = portWord mem (dmemAddr (run resetPc x t))

def hartEx (t : Nat) : Ex where
  q := Seq.decoded (hart resetPc x t).pc (run resetPc x t).idExQ.insn
  rs1Fwd := (hart resetPc x t).regs (rs1Field (run resetPc x t).idExQ.insn)
  rs2Fwd := (hart resetPc x t).regs (rs2Field (run resetPc x t).idExQ.insn)
  csr := (run resetPc x t).csr
  seedRdata := Seed.rdata (run resetPc x t).seed

variable {resetPc x}

variable (resetPc x) in
theorem sees (t : Nat) (mem : Word → BitVec 8) : (hart resetPc x t).Sees
    ⟨(run resetPc x t).idExQ.insn,mem⟩ (hartEx resetPc x t) :=
  ⟨rfl,rfl,rfl,rfl⟩

theorem hartEx_agree {t : Nat} (hd : exDone (run resetPc x t) = true) :
    Ex.Agree (ex (run resetPc x t)) (hartEx resetPc x t) := by
  obtain ⟨hv,_⟩ := exDone_valid hd
  have hsound := run_sound resetPc x t
  have hdec := hsound.decoded hv
  have hpc := (run_flow resetPc x t).exPc hv
  refine ⟨hv,hpc,rfl,hdec.ctrl,?_,hdec.rs1Addr,hdec.rdAddr,rfl,rfl,rfl,rfl,?_,?_,
    (decode_shape _).reads⟩
  · exact hdec.imm.trans (congrArg _ (congrArg Ctrl.immFmt hdec.ctrl))
  · intro hn
    have hn' : (decode (run resetPc x t).idExQ.insn).needs1 = true := hn
    rw [← hdec.ctrl,Ctrl.needs1,Bool.and_eq_true,Bool.not_eq_true'] at hn'
    have hs := (hsound.single hv hn'.2 (x t).dmemRdata).1 hn'.1
    rw [hdec.rs1Addr] at hs
    exact hs
  · intro hn
    have hn' : (decode (run resetPc x t).idExQ.insn).needs2 = true := hn
    rw [← hdec.ctrl,Ctrl.needs2,Bool.and_eq_true,Bool.not_eq_true'] at hn'
    have hs := (hsound.single hv hn'.2 (x t).dmemRdata).2 hn'.1
    rw [hdec.rs2Addr] at hs
    exact hs

theorem latch_dest {t : Nat} {mem : Word → BitVec 8} (hd : exDone (run resetPc x t) = true)
    (hm : LoadReads resetPc x t mem) : (outcome (hartEx resetPc x t) mem).dest =
      if exTrap (run resetPc x t) || !(run resetPc x t).idExQ.ctrl.regWrite then none
      else some ((run resetPc x t).idExQ.rdAddr,
        ((ex (run resetPc x t)).latch (Muldiv.result (run resetPc x t).muldiv)).result
          (x (t+1)).dmemRdata) := by
  have hag := hartEx_agree hd
  have hsound := run_sound resetPc x t
  have hdec := hsound.decoded (exDone_valid hd).1
  have hctrl : (run resetPc x t).idExQ.ctrl = (hartEx resetPc x t).q.ctrl := hag.ctrl
  have htrap : exTrap (run resetPc x t) = (hartEx resetPc x t).trap := hag.trap
  rw [outcome,htrap,hctrl]
  split
  · rfl
  · rename_i hw
    have hw' : (hartEx resetPc x t).q.ctrl.regWrite = true := by
      simp only [Bool.or_eq_true,Bool.not_eq_true',not_or,Bool.not_eq_false] at hw
      exact hw.2
    refine congrArg some (congrArg₂ Prod.mk hag.rdAddr.symm (hag.latchResult hw' ?_ ?_).symm)
    · intro hmd
      rw [← hctrl] at hmd
      rw [hsound.multi hd hmd (x t).dmemRdata,hdec.rs1Addr,hdec.rs2Addr,hctrl]
      rfl
    · intro hs
      have hmem : (hartEx resetPc x t).q.ctrl.memRead = true := by
        by_contra hn
        exact (decode_shape _).resultSel_ne_mem (Bool.eq_false_iff.mpr hn) hs
      rw [hm (hctrl ▸ hmem),dmemAddr,hag.memAddr (hag.reads.load hmem)]

theorem hart_idle {t : Nat} (hn : exDone (run resetPc x t) = false) :
    hart resetPc x (t+1) = hart resetPc x t ∧ (ex (run resetPc x t)).dmemBe = 0 ∧
      commit (run resetPc x (t+2)) = none := by
  obtain ⟨ht,hm,hw,hb⟩ := quiet_of_not_done (run_decoded resetPc x t) hn
  have hret : retires (run resetPc x t) = false := by simp [retires,hn]
  have hpc : archPc resetPc x (t+1) = archPc resetPc x t := if_neg (by simp [hn])
  have hregs : archRegs (run resetPc x (t+1)) (x (t+1)).dmemRdata =
      archRegs (run resetPc x t) (x t).dmemRdata := by
    funext r
    rw [run_next,archRegs_next,memWrites_next,hret]
    rfl
  have hcsr : Csr.view (run resetPc x (t+1)).csr = Csr.view (run resetPc x t).csr := by
    have hi : instretBump (run resetPc x t) = false := (instretBump_eq _).trans hret
    have h := Csr.next_idle (run resetPc x t).csr (i := (ex (run resetPc x t)).csrIn
      (instretBump (run resetPc x t)) (run resetPc x t).hpmEventQ) hw hi ht hm
    funext r
    rw [run_next,csr_next,Csr.view,Csr.view,← Csr.Reg.value_arch,h,Csr.Reg.value_arch]
  refine ⟨?_,hb,?_⟩
  · rw [hart,hart,hpc,hregs,hcsr]
  · rw [commit_run_two,hret]
    rfl

theorem hart_done {t : Nat} {mem : Word → BitVec 8} (hd : exDone (run resetPc x t) = true)
    (hm : LoadReads resetPc x t mem) : hart resetPc x (t+1) =
      (hart resetPc x t).step (volatile resetPc x t) ⟨(run resetPc x t).idExQ.insn,mem⟩ := by
  have hag := hartEx_agree hd
  have hret : retires (run resetPc x t) = !exTrap (run resetPc x t) := by rw [retires,hd]; rfl
  have hpc : archPc resetPc x (t+1) = (hartEx resetPc x t).redirectTarget :=
    (if_pos hd).trans hag.redirectTarget
  have hregs : archRegs (run resetPc x (t+1)) (x (t+1)).dmemRdata =
      (hart resetPc x t).regsNext (outcome (hartEx resetPc x t) mem).dest := by
    rw [latch_dest hd hm,Isa.Hart.regsNext_update]
    funext r
    rw [run_next,archRegs_next,memWrites_next,hret,update_if]
    cases ht : exTrap (run resetPc x t) with
    | true => rfl
    | false =>
      have hlatch : (next (run resetPc x t) (x t)).exMemQ =
          (ex (run resetPc x t)).latch (Muldiv.result (run resetPc x t).muldiv) :=
        if_neg (by simp [ht,(exDone_valid hd).2])
      rw [hlatch]
      rfl
  have hcsr : Csr.view (run resetPc x (t+1)).csr = Csr.view (Csr.next (hartEx resetPc x t).csr
      ((hartEx resetPc x t).csrIn (!(hartEx resetPc x t).trap) 0)) := by
    have hb : instretBump (run resetPc x t) = !(hartEx resetPc x t).trap := by
      rw [instretBump_eq,retires,hd,← hag.trap]
      rfl
    have h := Csr.next_arch (s := (run resetPc x t).csr) (t := (hartEx resetPc x t).csr) rfl
      (hag.sameRequest (instretBump (run resetPc x t)) (run resetPc x t).hpmEventQ 0)
    rw [← hb]
    funext r
    rw [run_next,csr_next,Csr.view,Csr.view,← Csr.Reg.value_arch,h,Csr.Reg.value_arch]
  rw [hart,hpc,hregs,hcsr]
  exact (sees resetPc x t mem).step.symm

theorem hart_access {t : Nat} (hd : exDone (run resetPc x t) = true) (mem : Word → BitVec 8) :
    Performs (ex (run resetPc x t))
      ((hart resetPc x t).store (volatile resetPc x t) ⟨(run resetPc x t).idExQ.insn,mem⟩) :=
  (hartEx_agree hd).performs (run_decoded resetPc x t (exDone_valid hd).1)
    (sees resetPc x t mem).store

theorem hart_load {t : Nat} (hd : exDone (run resetPc x t) = true) {op : Isa.LoadOp}
    {rd rs1 : BitVec 5} {imm : BitVec 12}
    (hi : Isa.Instr.decode (run resetPc x t).idExQ.insn = some (.load op rd rs1 imm)) :
    dmemAddr (run resetPc x t) =
      (hart resetPc x t).regs (rs1Field (run resetPc x t).idExQ.insn)+Isa.simm imm := by
  have hh := (sees resetPc x t fun _ => 0).holds hi
  have hmem : (hartEx resetPc x t).q.ctrl.memRead = true := by
    rw [hh.ctrl]
    rfl
  have hw : (outcome (hartEx resetPc x t) fun _ => 0).addr = some (hartEx resetPc x t).memAddr := by
    rw [outcome,hmem]
    rfl
  rw [exec_load hh,access_addr] at hw
  rw [dmemAddr,(hartEx_agree hd).memAddr ((hartEx_agree hd).reads.load hmem)]
  exact (Option.some.inj hw).symm

theorem hart_event {t : Nat} {mem : Word → BitVec 8} (hd : exDone (run resetPc x t) = true)
    (hm : LoadReads resetPc x t mem) :
    let ev := (hart resetPc x t).event (volatile resetPc x t) ⟨(run resetPc x t).idExQ.insn,mem⟩
    commit (run resetPc x (t+2)) = ev.commit ∧
      ev.trap = if exTrap (run resetPc x t) then some (hart resetPc x t).pc else none := by
  obtain ⟨hc,ht⟩ := (sees resetPc x t mem).event
  have htrap : (hartEx resetPc x t).trap = exTrap (run resetPc x t) := (hartEx_agree hd).trap.symm
  have hpc : (hartEx resetPc x t).q.pc = (run resetPc x t).idExQ.pc := (hartEx_agree hd).pc.symm
  rw [htrap] at hc ht
  refine ⟨?_,ht⟩
  have hret : retires (run resetPc x t) = !exTrap (run resetPc x t) := by rw [retires,hd]; rfl
  refine Eq.trans ?_ hc.symm
  rw [latch_dest hd hm,commit_run_two,hret,hpc]
  cases exTrap (run resetPc x t) with
  | true => rfl
  | false =>
    rw [Isa.dest_filter]
    rfl

end run

/-! ### What EX holds was given to the core -/

section run

variable (resetPc : Word) (x : Nat → In)

theorem Delivered.succ {t : Nat} {insn pc : Word} (h : Delivered resetPc x t insn pc) :
    Delivered resetPc x (t+1) insn pc := by
  obtain ⟨u,hu,h⟩ := h
  exact ⟨u,Nat.lt_succ_of_lt hu,h⟩

/-- The words in ID and EX, whatever has held them since. -/
structure Given (t : Nat) (s : State) (i : In) : Prop where
  id : s.ifIdQ.valid = true → Delivered resetPc x t (ifId s i).insn s.ifIdQ.pc
  ex : s.idExQ.valid = true → Delivered resetPc x t s.idExQ.insn s.idExQ.pc

theorem run_given (t : Nat) : Given resetPc x t (run resetPc x t) (x t) := by
  induction t with
  | zero =>
    constructor
    · intro h; cases h
    · intro h; cases h
  | succ t ih =>
    have hold : ∀ {s' : State}, s'.insnHeldQ = true →
        s'.insnHoldQ = (ifId (run resetPc x t) (x t)).insn →
        (ifId s' (x (t+1))).insn = (ifId (run resetPc x t) (x t)).insn := by
      intro s' hh hw
      simp only [ifId,hh,if_true,hw]
    rw [run_next]
    cases edge (run resetPc x t) (x t) with
    | hold hs _ hid hh hex _ =>
      refine ⟨fun h => ?_,fun h => ?_⟩
      · rw [hid] at h ⊢
        rw [hold hh rfl]
        exact (ih.id h).succ
      · rw [hex] at h ⊢
        exact (ih.ex h).succ
    | redirect _ _ _ hid _ hex _ =>
      refine ⟨fun h => ?_,fun h => ?_⟩
      · rw [hid] at h; cases h
      · rw [hex] at h; cases h
    | loaduse _ _ _ _ hid hh hex _ =>
      refine ⟨fun h => ?_,fun h => ?_⟩
      · rw [hid] at h ⊢
        rw [hold hh rfl]
        exact (ih.id h).succ
      · rw [hex] at h; cases h
    | advance _ _ _ _ hid hh hex _ =>
      refine ⟨fun _ => ⟨t,Nat.lt_succ_self t,?_,?_⟩,fun h => ?_⟩
      · rw [hid]
        rfl
      · simp only [ifId,hh,Bool.false_eq_true,if_false]
      · rw [hex] at h ⊢
        exact (ih.id h).succ

/-- Whatever a bus and a predictor answer, the core is the hart of the specification on
the words and the load data that the bus gives it: a cycle in which EX finishes an
instruction is one step, on a word delivered for the program counter, and any other cycle
is none. -/
theorem implements_hart : hart resetPc x 0 = .reset resetPc ∧ ∀ t,
    if exDone (run resetPc x t) then
      Delivered resetPc x t (run resetPc x t).idExQ.insn (hart resetPc x t).pc ∧
      ∀ mem, LoadReads resetPc x t mem →
        let h := hart resetPc x t
        let w : Isa.Hart.View := ⟨(run resetPc x t).idExQ.insn,mem⟩
        hart resetPc x (t+1) = h.step (volatile resetPc x t) w ∧
        Performs (ex (run resetPc x t)) (h.store (volatile resetPc x t) w) ∧
        commit (run resetPc x (t+2)) = (h.event (volatile resetPc x t) w).commit
    else hart resetPc x (t+1) = hart resetPc x t ∧ (ex (run resetPc x t)).dmemBe = 0 ∧
      commit (run resetPc x (t+2)) = none := by
  refine ⟨?_,fun t => ?_⟩
  · rw [hart,Isa.Hart.reset]
    exact congrArg (Isa.Hart.mk _ _) Csr.view_reset
  · split
    · rename_i hd
      have hpc : (run resetPc x t).idExQ.pc = (hart resetPc x t).pc :=
        (run_flow resetPc x t).exPc (exDone_valid hd).1
      refine ⟨hpc ▸ (run_given resetPc x t).ex (exDone_valid hd).1,fun mem hm => ?_⟩
      exact ⟨hart_done hd hm,hart_access hd mem,(hart_event hd hm).1⟩
    · rename_i hd
      exact hart_idle (by simpa using hd)

end run

end Core

end Rvntt
