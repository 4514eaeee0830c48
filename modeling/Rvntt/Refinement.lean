import Rvntt.Sequential
set_option autoImplicit false

/-!
The pipeline on its memory refines the sequential machine: a cycle in which EX
finishes an instruction is one step of it, any other cycle is none.
-/

namespace Rvntt.Core

theorem memWrites_next (s : State) (i : In) (r : BitVec 5) : memWrites (next s i) r =
    (retires s && s.idExQ.ctrl.regWrite && s.idExQ.rdAddr != 0 && s.idExQ.rdAddr == r) := by
  have hn : (next s i).exMemQ = exMemNext s := rfl
  simp only [memWrites,hn,exMemNext,retires,exDone]
  cases exTrap s <;> cases exStall s <;> simp [Ex.latch,ex]

theorem commit_run_two (resetPc : Word) (x : Nat → In) (t : Nat) :
    commit (run resetPc x (t+2)) =
      if retires (run resetPc x t) then
        some ⟨(run resetPc x t).idExQ.pc,(run resetPc x t).idExQ.insn,
          if (run resetPc x t).idExQ.ctrl.regWrite && (run resetPc x t).idExQ.rdAddr != 0 then
            some ((run resetPc x t).idExQ.rdAddr,
              ((ex (run resetPc x t)).latch (Muldiv.result (run resetPc x t).muldiv)).result
                (x (t+1)).dmemRdata)
          else none⟩
      else none := by
  have hwb : (run resetPc x (t+2)).memWbQ = memWbNext (run resetPc x (t+1)) (x (t+1)) := rfl
  have hmem : (run resetPc x (t+1)).exMemQ = exMemNext (run resetPc x t) := rfl
  rw [commit,wbWe,hwb]
  simp only [memWbNext,hmem,exMemNext,retires,exDone]
  by_cases ht : exTrap (run resetPc x t) = true
  · simp [ht]
  by_cases hs : exStall (run resetPc x t) = true
  · simp [hs]
  by_cases hv : (run resetPc x t).idExQ.valid = true
  · simp [ht,hs,hv,Ex.latch,ex]
  · simp [ht,hs,hv,Ex.latch,ex]

end Rvntt.Core

namespace Rvntt.SimTop

open Core (exDone archRegs archPc)

/-- What the instruction finishing in EX may read besides its program's own state. -/
def envOf (s : Core.State) : Seq.Env where
  mcycleQ := s.csr.mcycleQ
  mhpmcounterQ := s.csr.mhpmcounterQ
  seedRdata := Seed.rdata s.seed

section run

variable {aw : Nat} (base resetPc : Word) (ram : Ram aw) (x : Nat → In)

abbrev core (t : Nat) : Core.State := Core.run resetPc (ports base resetPc ram x) t

def envAt (t : Nat) : Option Seq.Env :=
  if exDone (core base resetPc ram x t) then some (envOf (core base resetPc ram x t)) else none

def envs (t : Nat) : List Seq.Env := Clocked.events (envAt base resetPc ram x) t

/-- The sequential machine after the same instructions. -/
def reference (t : Nat) : Seq.State aw :=
  Seq.run base (Seq.init resetPc ram.mem) (envs base resetPc ram x t)

def commitAt (t : Nat) : Option Core.Commit := Core.commit (core base resetPc ram x t)
def storeAt (t : Nat) : Option Seq.Store := Seq.issue (Core.ex (core base resetPc ram x t))

/-- The commit port lags EX by two cycles; everything else is in step. -/
structure Matches (t : Nat) (a : Seq.State aw) : Prop where
  pc : a.pc = archPc resetPc (ports base resetPc ram x) t
  regs : a.regs = archRegs (core base resetPc ram x t) (ports base resetPc ram x t).dmemRdata
  csr : a.csr = (core base resetPc ram x t).csr.toArch
  mem : a.mem = (run base resetPc ram x t).ram.mem
  retired : a.retired = Clocked.events (commitAt base resetPc ram x) (t+2)
  stored : a.stored = Clocked.events (storeAt base resetPc ram x) t

/-- No store changes a word that is fetched after it. -/
def NoFetchedStore : Prop :=
  ∀ t l, l <+: envs base resetPc ram x t →
    (Seq.run base (Seq.init resetPc ram.mem) l).mem
        (Ram.wordAddr base (reference base resetPc ram x t).pc) =
      Seq.fetch base (reference base resetPc ram x t)

variable {base resetPc ram x}

theorem core_succ (t : Nat) : core base resetPc ram x (t+1) =
    Core.next (core base resetPc ram x t) (ports base resetPc ram x t) := rfl

theorem matches_init : Matches base resetPc ram x 0 (Seq.init resetPc ram.mem) where
  pc := rfl
  regs := rfl
  csr := rfl
  mem := rfl
  retired := rfl
  stored := rfl

theorem mem_succ (t : Nat) : (run base resetPc ram x (t+1)).ram.mem =
    Ram.store (run base resetPc ram x t).ram.mem
      (Ram.wordAddr base (Core.ex (core base resetPc ram x t)).memAddr)
      (Core.ex (core base resetPc ram x t)).dmemWdata
      (Core.ex (core base resetPc ram x t)).dmemBe := by
  rw [core,← run_core]
  rfl

theorem dmemRdata_succ (t : Nat) : (ports base resetPc ram x (t+1)).dmemRdata =
    (run base resetPc ram x t).ram.mem
      (Ram.wordAddr base (Core.ex (core base resetPc ram x t)).memAddr) := by
  rw [core,← run_core]
  rfl

theorem matches_idle {t : Nat} {a : Seq.State aw} (h : Matches base resetPc ram x t a)
    (hn : exDone (core base resetPc ram x t) = false) :
    Matches base resetPc ram x (t+1) a := by
  obtain ⟨ht,hm,hw,hb⟩ := Core.quiet_of_not_done (Core.run_decoded resetPc _ t) hn
  have hret : Core.retires (core base resetPc ram x t) = false := by simp [Core.retires,hn]
  refine ⟨?_,?_,?_,?_,?_,?_⟩
  · rw [h.pc]
    exact (if_neg (by simp [hn])).symm
  · rw [h.regs]
    funext r
    rw [core_succ,Core.archRegs_next,Core.memWrites_next]
    simp [hret]
  · rw [h.csr,core_succ,Core.csr_next]
    exact (Csr.next_idle _ hw (by rw [Ex.csrIn,Core.instretBump_eq]; exact hret) ht hm).symm
  · rw [h.mem,mem_succ,hb,Ram.store_none]
  · have hc : commitAt base resetPc ram x (t+2) = none := by
      rw [commitAt,Core.commit_run_two,hret]
      rfl
    rw [h.retired,Clocked.events_succ_none hc]
  · rw [h.stored,Clocked.events_succ_none]
    simp [storeAt,Seq.issue,hb]

theorem agree {t : Nat} {a : Seq.State aw} (h : Matches base resetPc ram x t a)
    (hd : exDone (core base resetPc ram x t) = true)
    (hi : (core base resetPc ram x t).idExQ.insn = Seq.fetch base a) :
    Ex.Agree (Core.ex (core base resetPc ram x t))
      (Seq.exec base a (envOf (core base resetPc ram x t))) := by
  obtain ⟨hv,_⟩ := Core.exDone_valid hd
  have hsound := Core.run_sound resetPc (ports base resetPc ram x) t
  have hdec := hsound.decoded hv
  have hpc := (Core.run_flow resetPc (ports base resetPc ram x) t).exPc hv
  have hctrl : (core base resetPc ram x t).idExQ.ctrl = decode (Seq.fetch base a) := by
    rw [hdec.ctrl,hi]
  have hr1 : (core base resetPc ram x t).idExQ.rs1Addr = rs1Field (Seq.fetch base a) := by
    rw [hdec.rs1Addr,hi]
  have hr2 : (core base resetPc ram x t).idExQ.rs2Addr = rs2Field (Seq.fetch base a) := by
    rw [hdec.rs2Addr,hi]
  refine ⟨hv,hpc.trans h.pc.symm,hi,hctrl,?_,hr1,?_,h.csr.symm,rfl,rfl,rfl,?_,?_,
    (decode_shape _).reads⟩
  · exact hdec.imm.trans (by rw [hctrl,hi]; rfl)
  · exact hdec.rdAddr.trans (by rw [hi]; rfl)
  · intro hn
    have hn' : (decode (Seq.fetch base a)).needs1 = true := hn
    rw [← hctrl,Ctrl.needs1,Bool.and_eq_true,Bool.not_eq_true'] at hn'
    have hs := (hsound.single hv hn'.2 (ports base resetPc ram x t).dmemRdata).1 hn'.1
    change Core.exRs1Fwd _ = a.regs (rs1Field (Seq.fetch base a))
    rw [hs,h.regs,hr1]
  · intro hn
    have hn' : (decode (Seq.fetch base a)).needs2 = true := hn
    rw [← hctrl,Ctrl.needs2,Bool.and_eq_true,Bool.not_eq_true'] at hn'
    have hs := (hsound.single hv hn'.2 (ports base resetPc ram x t).dmemRdata).2 hn'.1
    change Core.exRs2Fwd _ = a.regs (rs2Field (Seq.fetch base a))
    rw [hs,h.regs,hr2]

theorem latch_value {t : Nat} {a : Seq.State aw} (h : Matches base resetPc ram x t a)
    (hd : exDone (core base resetPc ram x t) = true)
    (hi : (core base resetPc ram x t).idExQ.insn = Seq.fetch base a)
    (hw : (core base resetPc ram x t).idExQ.ctrl.regWrite = true) :
    ((Core.ex (core base resetPc ram x t)).latch
        (Muldiv.result (core base resetPc ram x t).muldiv)).result
        (ports base resetPc ram x (t+1)).dmemRdata =
      Seq.value base a (Seq.exec base a (envOf (core base resetPc ram x t))) := by
  have hag := agree h hd hi
  have hsound := Core.run_sound resetPc (ports base resetPc ram x) t
  have hdec := hsound.decoded (Core.exDone_valid hd).1
  have hctrl : (core base resetPc ram x t).idExQ.ctrl =
      (Seq.exec base a (envOf (core base resetPc ram x t))).q.ctrl := hag.ctrl
  refine hag.latchResult (by rw [← hctrl]; exact hw) ?_ ?_
  · intro hm
    rw [← hctrl] at hm
    have hres := hsound.multi hd hm (ports base resetPc ram x t).dmemRdata
    rw [hres,← h.regs,hdec.rs1Addr,hdec.rs2Addr,hi,hctrl]
    rfl
  · intro hs
    have hmem : (decode (Seq.fetch base a)).memRead = true := by
      by_contra hn
      exact (decode_shape _).resultSel_ne_mem (by simpa using hn) hs
    rw [dmemRdata_succ,← h.mem,hag.memAddr (hag.reads.load hmem)]

theorem commit_eq {t : Nat} {a : Seq.State aw} (h : Matches base resetPc ram x t a)
    (hd : exDone (core base resetPc ram x t) = true)
    (hi : (core base resetPc ram x t).idExQ.insn = Seq.fetch base a) :
    commitAt base resetPc ram x (t+2) =
      Seq.retire base a (Seq.exec base a (envOf (core base resetPc ram x t))) := by
  have hag := agree h hd hi
  have hctrl : (core base resetPc ram x t).idExQ.ctrl =
      (Seq.exec base a (envOf (core base resetPc ram x t))).q.ctrl := hag.ctrl
  have hrd : (core base resetPc ram x t).idExQ.rdAddr =
      (Seq.exec base a (envOf (core base resetPc ram x t))).q.rdAddr := hag.rdAddr
  have hret : Core.retires (core base resetPc ram x t) =
      !(Core.ex (core base resetPc ram x t)).trap := by rw [Core.retires,hd]; rfl
  rw [commitAt,Core.commit_run_two,hret,Seq.retire,Seq.writes,← hag.trap]
  cases ht : (Core.ex (core base resetPc ram x t)).trap with
  | true => rfl
  | false =>
    rw [← hctrl,← hrd,← hag.pc,← hag.insn]
    by_cases hw : (core base resetPc ram x t).idExQ.ctrl.regWrite = true
    · rw [latch_value h hd hi hw]
      rfl
    · simp only [hw,Bool.not_false,Bool.false_eq_true,if_true,if_false,Bool.false_and,
        Bool.and_false]
      rfl

theorem matches_fire {t : Nat} {a : Seq.State aw} (h : Matches base resetPc ram x t a)
    (hd : exDone (core base resetPc ram x t) = true)
    (hi : (core base resetPc ram x t).idExQ.insn = Seq.fetch base a) :
    Matches base resetPc ram x (t+1)
      (Seq.step base a (envOf (core base resetPc ram x t))) := by
  have hag := agree h hd hi
  have hctrl : (core base resetPc ram x t).idExQ.ctrl =
      (Seq.exec base a (envOf (core base resetPc ram x t))).q.ctrl := hag.ctrl
  have hrd : (core base resetPc ram x t).idExQ.rdAddr =
      (Seq.exec base a (envOf (core base resetPc ram x t))).q.rdAddr := hag.rdAddr
  have hs := (Core.exDone_valid hd).2
  refine ⟨?_,?_,?_,?_,?_,?_⟩
  · have hp : archPc resetPc (ports base resetPc ram x) (t+1) =
        Core.exRedirectTarget (core base resetPc ram x t) := if_pos hd
    rw [hp]
    exact hag.redirectTarget.symm
  · funext r
    have hret : Core.retires (core base resetPc ram x t) =
        !(Core.ex (core base resetPc ram x t)).trap := by rw [Core.retires,hd]; rfl
    rw [core_succ,Core.archRegs_next,Core.memWrites_next,hret,← h.regs]
    change (if Seq.writes _ then Function.update a.regs _ _ else a.regs) r = _
    rw [Seq.writes,← hag.trap,← hctrl,← hrd]
    by_cases hw : (core base resetPc ram x t).idExQ.ctrl.regWrite = true
    · have hval := latch_value h hd hi hw
      cases ht : (Core.ex (core base resetPc ram x t)).trap with
      | true => simp
      | false =>
        have hm : (Core.next (core base resetPc ram x t) (ports base resetPc ram x t)).exMemQ =
            (Core.ex (core base resetPc ram x t)).latch
              (Muldiv.result (core base resetPc ram x t).muldiv) :=
          if_neg (by simp [Core.exTrap,ht,hs])
        rw [hm,hval]
        cases hz : (core base resetPc ram x t).idExQ.rdAddr != 0 with
        | false => simp
        | true =>
          by_cases hr : r = (core base resetPc ram x t).idExQ.rdAddr
          · simp [hw,hr]
          · simp [hw,hr,Ne.symm hr]
    · simp [hw]
  · rw [core_succ,Core.csr_next]
    refine (Csr.next_arch hag.csr ?_).symm
    have hb : Core.instretBump (core base resetPc ram x t) =
        !(Seq.exec base a (envOf (core base resetPc ram x t))).trap := by
      rw [Core.instretBump_eq,Core.retires,hd,← hag.trap]
      rfl
    rw [hb]
    exact hag.sameRequest _ _ _
  · rw [mem_succ,← h.mem]
    change Ram.store a.mem _ _ _ = _
    rw [hag.dmemBe]
    by_cases hb : (Seq.exec base a (envOf (core base resetPc ram x t))).dmemBe = 0
    · rw [hb,Ram.store_none,Ram.store_none]
    · rw [(hag.store hb).1,(hag.store hb).2]
  · rw [Clocked.events_succ,← h.retired,commit_eq h hd hi]
    rfl
  · rw [Clocked.events_succ,← h.stored,storeAt]
    have hiss : Seq.issue (Core.ex (core base resetPc ram x t)) =
        Seq.issue (Seq.exec base a (envOf (core base resetPc ram x t))) := by
      rw [Seq.issue,Seq.issue,hag.dmemBe]
      by_cases hb : (Seq.exec base a (envOf (core base resetPc ram x t))).dmemBe = 0
      · rw [if_pos hb,if_pos hb]
      · rw [if_neg hb,if_neg hb,(hag.store hb).1,(hag.store hb).2]
    rw [hiss]
    rfl

/-! ### The refinement -/

/-- The oldest unfinished instruction, once in EX, is the word the sequential machine
fetches: nothing has changed that word since the core read it. -/
theorem insn_eq (hns : NoFetchedStore base resetPc ram x) {t : Nat}
    (hm : ∀ u, u ≤ t → Matches base resetPc ram x u (reference base resetPc ram x u))
    (hd : exDone (core base resetPc ram x t) = true) :
    (core base resetPc ram x t).idExQ.insn = Seq.fetch base (reference base resetPc ram x t) := by
  have hv := (Core.exDone_valid hd).1
  obtain ⟨u,hu,hi⟩ := (run_words base resetPc ram x t).ex hv
  have hpc : (core base resetPc ram x t).idExQ.pc = (reference base resetPc ram x t).pc :=
    ((Core.run_flow resetPc _ t).exPc hv).trans (hm t (Nat.le_refl t)).pc.symm
  rw [hi,hpc,← (hm u hu).mem]
  exact hns t _ (Clocked.events_prefix _ hu)

theorem run_matches (hns : NoFetchedStore base resetPc ram x) (t : Nat) :
    Matches base resetPc ram x t (reference base resetPc ram x t) := by
  induction t using Nat.strong_induction_on with
  | _ t ih =>
    cases t with
    | zero => exact matches_init
    | succ t =>
      have hm := ih t (Nat.lt_succ_self t)
      cases hd : exDone (core base resetPc ram x t) with
      | false =>
        have he : envAt base resetPc ram x t = none := by simp [envAt,hd]
        rw [reference,envs,Clocked.events_succ_none he]
        exact matches_idle hm hd
      | true =>
        have he : envAt base resetPc ram x t =
            some (envOf (core base resetPc ram x t)) := by simp [envAt,hd]
        rw [reference,envs,Clocked.events_succ_some he,Seq.run_concat]
        exact matches_fire hm hd
          (insn_eq hns (fun u hu => ih u (Nat.lt_succ_of_le hu)) hd)

/-- Whatever the predictor answers and however long the run, the core retires, stores
and keeps exactly what the sequential machine does after the same number of
instructions, one for each that has finished in EX; and an instruction that traps
there leaves no register, memory word or line of the commit port behind. -/
theorem refines (hns : NoFetchedStore base resetPc ram x) (t : Nat) :
    let a := reference base resetPc ram x t
    Clocked.events (commitAt base resetPc ram x) (t+2) = a.retired ∧
    Clocked.events (storeAt base resetPc ram x) t = a.stored ∧
    (core base resetPc ram x t).csr.toArch = a.csr ∧
    (run base resetPc ram x t).ram.mem = a.mem ∧
    archRegs (core base resetPc ram x t) (ports base resetPc ram x t).dmemRdata = a.regs ∧
    (envs base resetPc ram x t).length =
      ∑ u ∈ Finset.range t, (exDone (core base resetPc ram x u)).toNat ∧
    ∀ e, (Seq.exec base a e).trap = true →
      (Seq.step base a e).regs = a.regs ∧ (Seq.step base a e).mem = a.mem ∧
      (Seq.step base a e).retired = a.retired ∧ (Seq.step base a e).stored = a.stored := by
  have h := run_matches hns t
  refine ⟨h.retired.symm,h.stored.symm,h.csr.symm,h.mem.symm,h.regs.symm,?_,
    fun e => Seq.step_trap base _ e⟩
  rw [envs,Clocked.length_events]
  refine Finset.sum_congr rfl fun u _ => ?_
  cases hd : exDone (core base resetPc ram x u) <;> simp [envAt,hd]

end run

/-! A program that stores beside its own code: `sw x0,8(x0)` and a jump back to it. -/

def storeLoop : Ram 2 where
  mem i := if i = 0 then 0x00002423 else if i = 1 then 0xFFDFF06F else 0
  rdataA := 0
  rdataB := 0

theorem sw_decoded : Seq.decoded 0x80000000 0x00002423 =
    {valid := true, pc := 0x80000000, insn := 0x00002423, ctrl := ctrlStore f3Lw,
     imm := 8, rs1Addr := 0, rs2Addr := 0, rdAddr := 8} := by decide

theorem jal_decoded : Seq.decoded 0x80000004 0xFFDFF06F =
    {valid := true, pc := 0x80000004, insn := 0xFFDFF06F, ctrl := ctrlJal,
     imm := 0xFFFFFFFC, rs1Addr := 31, rs2Addr := 29, rdAddr := 0} := by decide

theorem sw_ex {y : Ex} (hq : y.q = Seq.decoded 0x80000000 0x00002423) (h1 : y.rs1Fwd = 0) :
    Seq.writes y = false ∧ y.memAddr = 8 ∧ y.redirectTarget = 0x80000004 := by
  rw [sw_decoded] at hq
  have ha : y.memAddr = 8 := by rw [Ex.memAddr,hq,h1]; rfl
  have ht : y.trap = false := by
    simp [Ex.trap,Ex.trapInfo,Ex.targetMisaligned,Ex.ctrlXfer,Ex.addrMisaligned,ha,hq,ctrlStore,
      f3Lw,f3Lh,f3Lhu]
  refine ⟨?_,ha,?_⟩
  · simp [Seq.writes,hq,ctrlStore]
  · simp [Ex.redirectTarget,ht,Ex.mret,Ex.ctrlXfer,Ex.pcPlus4,hq,ctrlStore]

theorem jal_ex {y : Ex} (hq : y.q = Seq.decoded 0x80000004 0xFFDFF06F) :
    Seq.writes y = false ∧ y.dmemBe = 0 ∧ y.redirectTarget = 0x80000000 := by
  rw [jal_decoded] at hq
  have hx : y.ctrlXfer = true := by simp [Ex.ctrlXfer,hq,ctrlJal]
  have hj : y.jumpTarget = 0x80000000 := by simp [Ex.jumpTarget,Ex.pcTarget,hq,ctrlJal]
  have ht : y.trap = false := by simp [Ex.trap,Ex.trapInfo,Ex.targetMisaligned,hj,hq,ctrlJal]
  refine ⟨?_,?_,?_⟩
  · simp [Seq.writes,hq]
  · simp [Ex.dmemBe,Ex.storing,hq,ctrlJal]
  · simp [Ex.redirectTarget,ht,Ex.mret,hx,hj,hq,ctrlJal]

structure InLoop (s : Seq.State 2) : Prop where
  zero : s.regs 0 = 0
  first : s.mem 0 = 0x00002423
  second : s.mem 1 = 0xFFDFF06F
  pc : s.pc = 0x80000000 ∨ s.pc = 0x80000004

theorem inLoop_step {s : Seq.State 2} (h : InLoop s) (e : Seq.Env) :
    InLoop (Seq.step 0x80000000 s e) := by
  rcases h.pc with hp | hp
  · have hf : Seq.fetch 0x80000000 s = 0x00002423 := by
      rw [Seq.fetch,hp]
      exact h.first
    obtain ⟨hw,ha,hr⟩ := sw_ex (y := Seq.exec 0x80000000 s e) (congrArg₂ Seq.decoded hp hf)
      (by rw [Seq.exec,hf]; exact h.zero)
    have hm : ∀ i : BitVec 2, i ≠ 2 → (Seq.step 0x80000000 s e).mem i = s.mem i := by
      intro i hi
      simp only [Seq.step,Ram.store,ha]
      exact Function.update_of_ne hi _ _
    refine ⟨?_,?_,?_,Or.inr hr⟩
    · simp only [Seq.step,hw,Bool.false_eq_true,if_false,h.zero]
    · rw [hm 0 (by decide),h.first]
    · rw [hm 1 (by decide),h.second]
  · have hf : Seq.fetch 0x80000000 s = 0xFFDFF06F := by
      rw [Seq.fetch,hp]
      exact h.second
    obtain ⟨hw,hb,hr⟩ := jal_ex (y := Seq.exec 0x80000000 s e) (congrArg₂ Seq.decoded hp hf)
    have hm : (Seq.step 0x80000000 s e).mem = s.mem := by
      simp only [Seq.step,hb,Ram.store_none]
    refine ⟨?_,?_,?_,Or.inl hr⟩
    · simp only [Seq.step,hw,Bool.false_eq_true,if_false,h.zero]
    · rw [hm,h.first]
    · rw [hm,h.second]

theorem inLoop_run (l : List Seq.Env) :
    InLoop (Seq.run 0x80000000 (Seq.init 0x80000000 storeLoop.mem) l) := by
  induction l using List.reverseRecOn with
  | nil => exact ⟨rfl,rfl,rfl,Or.inl rfl⟩
  | append_singleton l e ih =>
    rw [Seq.run_concat]
    exact inLoop_step ih e

theorem noFetchedStore_storeLoop (x : Nat → In) :
    NoFetchedStore 0x80000000 0x80000000 storeLoop x := by
  intro t l _
  have hl := inLoop_run l
  have hr := inLoop_run (envs 0x80000000 0x80000000 storeLoop x t)
  change (Seq.run _ _ l).mem (Ram.wordAddr _ (Seq.run _ _ (envs _ _ storeLoop x t)).pc) =
    Seq.fetch _ (Seq.run _ _ (envs _ _ storeLoop x t))
  rcases hr.pc with hp | hp
  · rw [Seq.fetch,hp]
    exact hl.first.trans hr.first.symm
  · rw [Seq.fetch,hp]
    exact hl.second.trans hr.second.symm

theorem refines_storeLoop :
    Clocked.events (commitAt 0x80000000 0x80000000 storeLoop fun _ => ⟨false,{}⟩) (20+2) =
      (reference 0x80000000 0x80000000 storeLoop (fun _ => ⟨false,{}⟩) 20).retired :=
  (refines (noFetchedStore_storeLoop fun _ => ⟨false,{}⟩) 20).1

end Rvntt.SimTop
