import Rvntt.IsaRuns
import Rvntt.IsaRefinement
import Rvntt.CommitDiff
set_option autoImplicit false

/-!
The trap handler of `spike_asm.py` that steps over the faulting instruction, and the
faulting addresses read back from the log.
-/

namespace Rvntt.Isa

/-! ### The handler -/

/-- `TRAP_HANDLER_SKIP`: `csrr t0,mepc`, `addi t0,t0,4`, `csrw mepc,t0`, `mret`. -/
def trapHandlerSkip : List Instr :=
  [.csr .csrrs Csr.csrMepc 5 0,.opImm .addi 5 5 4,.csr .csrrw Csr.csrMepc 0 5,.mret]

namespace Machine

variable {aw : Nat} (base : Word)

def wordAt (mem : BitVec (aw+2) → BitVec 8) (a : Word) : Word :=
  LoadOp.lw.value (fun x => mem (byteAddr base x)) a

def CodeAt (mem : BitVec (aw+2) → BitVec 8) : Word → List Instr → Prop
  | _,[] => True
  | a,i::l => wordAt base mem a = i.encode ∧ CodeAt mem (a+4) l

variable {base} {m : Machine aw}

theorem fetch_eq (m : Machine aw) : m.fetch base = wordAt base m.mem m.pc := rfl

def setT0 (f : BitVec 5 → Word) (v : Word) : BitVec 5 → Word := fun q => if q = 5 then v else f q

theorem regsNext_t0 (m : Machine aw) (v : Word) : m.regsNext (some (5,v)) = setT0 m.regs v := by
  funext q
  have h5 : (5 : BitVec 5) ≠ 0 := by decide
  simp only [Hart.regsNext,setT0,h5,ne_eq,not_false_eq_true,and_true]

theorem setT0_setT0 (f : BitVec 5 → Word) (v w : Word) : setT0 (setT0 f v) w = setT0 f w := by
  funext q
  simp only [setT0]
  split <;> rfl

def skipped (c : Csrs) : Csrs
  | .mepc => c .mepc+4
  | .mstatus => Csrs.mstatus ((c .mstatus).getLsbD 7) true
  | r => c r

theorem put_mepc {c : Csrs} {v : Word} (h : Aligned v) (r : Csr.Reg) :
    c.put Csr.csrMepc v r = if r = .mepc then v else c r := by
  rw [Csrs.put]
  by_cases hr : r = .mepc
  · subst hr
    rw [if_pos (by rfl),if_pos rfl]
    exact (Csr.aligned_warl v).symm.trans (Ref.concat_extract h)
  · have ha : r.addr ≠ Csr.csrMepc := by
      cases r with
      | mepc => exact absurd rfl hr
      | mhpmevent k => fin_cases k <;> decide
      | _ => decide
    rw [if_neg ha,if_neg hr]

theorem leave_put {c : Csrs} (h : Aligned (c .mepc)) :
    (c.put Csr.csrMepc (c .mepc+4)).leave = skipped c := by
  have hput := put_mepc (c := c) h.add_four
  funext r
  cases r with
  | mstatus =>
    have hs := (hput .mstatus).trans (if_neg (by decide))
    rw [Csrs.leave,hs]
    rfl
  | mepc => exact (hput .mepc).trans (if_pos rfl)
  | mhpmevent k => exact (hput (.mhpmevent k)).trans (if_neg (by simp))
  | _ => exact (hput _).trans (if_neg (by decide))

theorem legal_read (src : Word) : ¬CsrIllegal ⟨Csr.csrMepc,.rs,src,false⟩ := by
  have h : Csr.Implemented Csr.csrMepc := by decide
  have hseed : Csr.csrMepc ≠ Csr.csrSeed := by decide
  rintro (hn | ⟨hw,_⟩ | ⟨hs,_⟩)
  · exact hn h
  · cases hw
  · exact hseed hs

theorem legal_write (src : Word) : ¬CsrIllegal ⟨Csr.csrMepc,.rw,src,true⟩ := by
  have h : Csr.Implemented Csr.csrMepc := by decide
  have hro : ¬Csr.ReadOnly Csr.csrMepc := by decide
  have hseed : Csr.csrMepc ≠ Csr.csrSeed := by decide
  rintro (hn | ⟨_,hr⟩ | ⟨hs,_⟩)
  · exact hn h
  · exact hro hr
  · exact hseed hs

theorem step_csrr (h : m.fetch base = (Instr.csr .csrrs Csr.csrMepc 5 0).encode)
    (vol : Volatile) : m.step base vol = ⟨⟨m.pc+4,setT0 m.regs (m.csr .mepc),m.csr⟩,m.mem⟩ ∧
      m.event base vol = .retired ⟨m.pc,m.fetch base,some (5,m.csr .mepc)⟩ := by
  have hread : m.csr.read vol Csr.csrMepc = m.csr .mepc := m.csr.read_reg vol .mepc
  obtain ⟨hs,he⟩ := step_csr vol h rfl (legal_read (m.regs 0))
  rw [hread,regsNext_t0] at hs
  rw [hread] at he
  exact ⟨hs,he⟩

theorem step_addi (h : m.fetch base = (Instr.opImm .addi 5 5 4).encode) (vol : Volatile) :
    m.step base vol = ⟨⟨m.pc+4,setT0 m.regs (m.regs 5+4),m.csr⟩,m.mem⟩ := by
  have hw : m.fetch base = iType 4 5 RegOp.add.funct3 5 0b0010011 := h
  have hrs1 : (m.env (m.view base)).rs1 = m.regs 5 := by
    change m.regs (rs1Field (m.fetch base)) = _
    rw [hw,Instr.rs1Field_iType]
  obtain ⟨hs,_⟩ := step_exec vol h (fun _ => rfl) rfl rfl
  rw [hs,if_neg (by simp)]
  change (⟨⟨_,m.regsNext (some (5,(m.env (m.view base)).rs1+simm 4)),_⟩,_⟩ : Machine aw) = _
  rw [hrs1,regsNext_t0]
  rfl

theorem step_csrw (h : m.fetch base = (Instr.csr .csrrw Csr.csrMepc 0 5).encode)
    (vol : Volatile) : m.step base vol =
      ⟨⟨m.pc+4,m.regs,m.csr.put Csr.csrMepc (m.regs 5)⟩,m.mem⟩ := by
  obtain ⟨hs,_⟩ := step_csr vol h rfl (legal_write (m.regs 5))
  rw [Hart.regsNext_x0] at hs
  exact hs

theorem step_mret (h : m.fetch base = Instr.mret.encode) (vol : Volatile) :
    m.step base vol = ⟨⟨m.csr .mepc,m.regs,m.csr.leave⟩,m.mem⟩ := by
  obtain ⟨hs,_⟩ := step_exec vol h (fun _ => rfl) rfl rfl
  rw [hs,if_pos rfl]
  rfl

/-- The handler returns behind the instruction that `mepc` names, with nothing but `t0`
and the CSRs of the trap changed. -/
theorem skip_steps (h : CodeAt base m.mem m.pc trapHandlerSkip) (ha : Aligned (m.csr .mepc))
    (vol : Nat → Volatile) : run base m vol 4 =
      ⟨⟨m.csr .mepc+4,setT0 m.regs (m.csr .mepc+4),skipped m.csr⟩,m.mem⟩ := by
  obtain ⟨h0,h1,h2,h3,_⟩ := h
  rw [← fetch_eq] at h0
  have r1 : run base m vol 1 = ⟨⟨m.pc+4,setT0 m.regs (m.csr .mepc),m.csr⟩,m.mem⟩ :=
    (step_csrr h0 (vol 0)).1
  have r2 : run base m vol 2 = ⟨⟨m.pc+4+4,setT0 m.regs (m.csr .mepc+4),m.csr⟩,m.mem⟩ := by
    change (run base m vol 1).step base (vol 1) = _
    rw [r1,step_addi (m := ⟨⟨m.pc+4,_,m.csr⟩,m.mem⟩) h1,setT0_setT0]
    rfl
  have r3 : run base m vol 3 = ⟨⟨m.pc+4+4+4,setT0 m.regs (m.csr .mepc+4),
      m.csr.put Csr.csrMepc (m.csr .mepc+4)⟩,m.mem⟩ := by
    change (run base m vol 2).step base (vol 2) = _
    rw [r2,step_csrw (m := ⟨⟨m.pc+4+4,_,m.csr⟩,m.mem⟩) h2]
    rfl
  change (run base m vol 3).step base (vol 3) = _
  rw [r3,step_mret (m := ⟨⟨m.pc+4+4+4,_,_⟩,m.mem⟩) h3]
  have hpc := (put_mepc (c := m.csr) ha.add_four .mepc).trans (if_pos rfl)
  simp only [hpc,leave_put ha]

/-! ### Whole runs -/

/-- Every trap goes to the handler at `h`, which stays in memory. -/
structure Installed (base : Word) (m : Machine aw) (vol : Nat → Volatile) (h : Word) : Prop where
  code : ∀ n, CodeAt base (run base m vol n).mem h trapHandlerSkip
  vector : ∀ n a, (eventAt base m vol n).trap = some a → (run base m vol n).csr .mtvec = h

/-- And nothing but a trap enters it. -/
structure Skips (base : Word) (m : Machine aw) (vol : Nat → Volatile) (h : Word) : Prop extends
    Installed base m vol h where
  entry : ∀ n, (run base m vol n).pc = h →
    ∃ k a, n = k+1 ∧ (eventAt base m vol k).trap = some a

section skips

variable {vol : Nat → Volatile} {h : Word}

theorem mstatus_mpie (b b' : Bool) : (Csrs.mstatus b b').getLsbD 7 = b' := by
  cases b <;> cases b' <;> rfl

theorem Installed.enter (hs : Installed base m vol h) (hw : m.Wf) {n : Nat} {a : Word}
    (ht : (eventAt base m vol n).trap = some a) :
    a = (run base m vol n).pc ∧ ∃ cause val, run base m vol (n+1) =
      ⟨⟨h,(run base m vol n).regs,(run base m vol n).csr.enter a cause val⟩,
        (run base m vol n).mem⟩ ∧ (run base m vol (n+1)).csr .mepc = a := by
  obtain ⟨rfl,cause,val,hstep⟩ := event_trap ht
  rw [hs.vector n _ ht] at hstep
  refine ⟨rfl,cause,val,hstep,?_⟩
  change ((run base m vol n).step base (vol n)).csr .mepc = _
  rw [hstep]
  exact (Csr.aligned_warl _).symm.trans (Ref.concat_extract (wf_run hw base vol n).pc)

theorem Installed.returns (hs : Installed base m vol h) (hw : m.Wf) {n : Nat} {a : Word}
    (ht : (eventAt base m vol n).trap = some a) :
    let m' := run base m vol (n+5)
    m'.pc = a+4 ∧ m'.regs = setT0 (run base m vol n).regs (a+4) ∧ m'.mem = (run base m vol n).mem ∧
      m'.csr .mstatus = Csrs.mstatus (((run base m vol n).csr .mstatus).getLsbD 3) true ∧
      ∀ r ∉ [Csr.Reg.mstatus,.mepc,.mcause,.mtval], m'.csr r = (run base m vol n).csr r := by
  obtain ⟨_,cause,val,hrun,hmepc⟩ := hs.enter hw ht
  have hcode := hs.code (n+1)
  have hpc : (run base m vol (n+1)).pc = h := by rw [hrun]
  rw [← hpc] at hcode
  have hfour := skip_steps hcode (wf_run hw base vol (n+1)).mepc fun j => vol (n+1+j)
  rw [run_add,hmepc,hrun] at hfour
  intro m'
  have hm' : m' = _ := hfour
  rw [hm']
  refine ⟨rfl,rfl,rfl,?_,fun r hr => ?_⟩
  · change Csrs.mstatus ((Csrs.mstatus false _).getLsbD 7) true = _
    rw [mstatus_mpie]
  · cases r <;> first | rfl | exact absurd (by simp) hr

/-- What a step adds to the list of `skipped_traps`: the address that trapped in the step
before it. -/
theorem Skips.logged (hs : Skips base m vol h) (hw : m.Wf) (n : Nat) :
    ((eventAt base m vol (n+1)).commit.toList.map Cosim.record).filter (fun r => r.pc == h.toNat) =
      (eventAt base m vol n).trap.toList.map fun a =>
        ⟨h.toNat,(Instr.csr .csrrs Csr.csrMepc 5 0).encode.toNat,[(5,a.toNat)]⟩ := by
  cases ht : (eventAt base m vol n).trap with
  | some a =>
    obtain ⟨_,cause,val,hrun,hmepc⟩ := hs.enter hw ht
    have hpc : (run base m vol (n+1)).pc = h := by rw [hrun]
    have hfetch : (run base m vol (n+1)).fetch base =
        (Instr.csr .csrrs Csr.csrMepc 5 0).encode := by
      rw [fetch_eq,hpc]
      exact (hs.code (n+1)).1
    have he := (step_csrr hfetch (vol (n+1))).2
    rw [hpc,hfetch,hmepc] at he
    rw [eventAt,he]
    simp [Event.commit,Cosim.record]
  | none =>
    have hpc : (run base m vol (n+1)).pc ≠ h := by
      intro hp
      obtain ⟨k,a,hk,ha⟩ := hs.entry (n+1) hp
      obtain rfl : n = k := by omega
      rw [ht] at ha
      cases ha
    cases hc : (eventAt base m vol (n+1)).commit with
    | none => rfl
    | some c =>
      have hne : (Cosim.record c).pc ≠ h.toNat := by
        rw [Cosim.record,(Hart.event_commit hc).1]
        exact fun he => hpc (BitVec.eq_of_toNat_eq he)
      simp [hne]

/-- The log shows every trap but one that has happened in the last step. -/
theorem Skips.skipped (hs : Skips base m vol h) (hw : m.Wf) (n : Nat) :
    Cosim.skippedTraps (some h.toNat) ((commits base m vol (n+1)).map Cosim.record) =
      some ((traps base m vol n).map BitVec.toNat) := by
  have hsnoc : ∀ l l' : List Cosim.Record,
      ((l ++ l').filter fun r => r.pc == h.toNat).flatMap (fun r => r.writes.map Prod.snd) =
        ((l.filter fun r => r.pc == h.toNat).flatMap fun r => r.writes.map Prod.snd) ++
          (l'.filter fun r => r.pc == h.toNat).flatMap fun r => r.writes.map Prod.snd := by
    intro l l'
    rw [List.filter_append,List.flatMap_append]
  rw [Cosim.skippedTraps,Option.map_some,Option.some.injEq]
  induction n with
  | zero =>
    have hpc : (run base m vol 0).pc ≠ h := by
      intro hp
      obtain ⟨k,_,hk,_⟩ := hs.entry 0 hp
      cases hk
    change (((eventAt base m vol 0).commit.toList.map Cosim.record).filter _).flatMap _ = []
    cases hc : (eventAt base m vol 0).commit with
    | none => rfl
    | some c =>
      have hne : (Cosim.record c).pc ≠ h.toNat := by
        rw [Cosim.record,(Hart.event_commit hc).1]
        exact fun he => hpc (BitVec.eq_of_toNat_eq he)
      simp [hne]
  | succ n ih =>
    rw [commits,Clocked.events_succ,← commits,List.map_append,hsnoc,ih,hs.logged hw,traps,traps,
      Clocked.events_succ,List.map_append]
    congr 1
    cases (eventAt base m vol n).trap <;> rfl

end skips

end Machine

end Rvntt.Isa
