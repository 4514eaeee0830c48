import Rvntt.IsaMachine
import Rvntt.RefBpred
set_option autoImplicit false

/-!
What one step of the machine of the specification does, and what holds along its runs.
-/

namespace Rvntt.Isa

/-! ### One step -/

namespace Csrs

@[simp] theorem read_reg (c : Csrs) (vol : Volatile) (r : Csr.Reg) : c.read vol r.addr = c r := by
  cases r with
  | mhpmevent k => fin_cases k <;> rfl
  | _ => rfl

end Csrs

theorem memNext_idle {aw : Nat} (base : Word) (m : Machine aw) : m.memNext base .idle = m.mem := rfl

theorem transfer_trap {e : Env} {t : Word} {dest : Option (BitVec 5 × Word)}
    {x : BitVec 5 × Word} (h : (transfer e t dest).trap = some x) :
    (transfer e t dest).next = e.mtvec := by
  rw [transfer] at h ⊢
  split at h
  · rename_i hf
    rw [if_pos hf]
  · cases h

theorem access_trap {e : Env} {cause : BitVec 5} {size : Nat} {a : Word}
    {dest : Option (BitVec 5 × Word)} {x : BitVec 5 × Word}
    (h : (access e cause size a dest).trap = some x) :
    (access e cause size a dest).next = e.mtvec := by
  rw [access] at h ⊢
  split at h
  · rename_i hf
    rw [if_pos hf]
  · cases h

theorem exec_trap {e : Env} {i : Instr} {o : Outcome} (h : i.exec e = some o)
    {x : BitVec 5 × Word} (ht : o.trap = some x) : o.next = e.mtvec := by
  cases i with
  | jal => obtain rfl := Option.some.inj h; exact transfer_trap ht
  | jalr => obtain rfl := Option.some.inj h; exact transfer_trap ht
  | branch c rs1 rs2 imm =>
    rw [Instr.exec] at h
    split at h
    · obtain rfl := Option.some.inj h
      exact transfer_trap ht
    · obtain rfl := Option.some.inj h
      cases ht
  | load => obtain rfl := Option.some.inj h; exact access_trap ht
  | store => obtain rfl := Option.some.inj h; exact access_trap ht
  | ecall => obtain rfl := Option.some.inj h; rfl
  | ebreak => obtain rfl := Option.some.inj h; rfl
  | csr => cases h
  | _ => obtain rfl := Option.some.inj h; cases ht

namespace Hart

variable {h : Hart} {w : View}

theorem outcome_illegal {vol : Volatile} (hi : Instr.decode w.insn = none) :
    h.outcome vol w = h.illegal w.insn := by
  rw [outcome,hi]

theorem outcome_csr (vol : Volatile) {i : Instr} {a : Csr.Access}
    (hi : Instr.decode w.insn = some i) (ha : i.csrAccess (h.env w).rs1 = some a) :
    h.outcome vol w = if CsrIllegal a then h.illegal w.insn
      else compute (h.env w) (rdField w.insn) (h.csr.read vol a.addr) := by
  rw [outcome,hi]
  dsimp only
  rw [ha]

theorem outcome_exec (vol : Volatile) {i : Instr} (hi : Instr.decode w.insn = some i)
    (ha : i.csrAccess (h.env w).rs1 = none) :
    h.outcome vol w = (i.exec (h.env w)).getD (h.illegal w.insn) := by
  rw [outcome,hi]
  dsimp only
  rw [ha]

theorem step_retired {vol : Volatile} {i : Instr} (hi : Instr.decode w.insn = some i)
    (ht : (h.outcome vol w).trap = none) : h.step vol w =
      ⟨(h.outcome vol w).next,h.regsNext (h.outcome vol w).dest,h.csrNext vol w i⟩ ∧
    h.store vol w = stores (h.env w) i ∧ h.event vol w =
      .retired ⟨h.pc,w.insn,(h.outcome vol w).dest.filter fun d => d.1 != 0⟩ := by
  rw [step,store,event,ht,hi]
  exact ⟨rfl,rfl,rfl⟩

theorem step_trap {vol : Volatile} {cause : BitVec 5} {val : Word}
    (ht : (h.outcome vol w).trap = some (cause,val)) : h.step vol w =
      ⟨(h.outcome vol w).next,h.regs,h.csr.enter h.pc cause val⟩ ∧
    h.store vol w = .idle ∧ h.event vol w = .trapped h.pc cause val := by
  rw [step,store,event,ht]
  exact ⟨rfl,rfl,rfl⟩

theorem step_exec (vol : Volatile) {i : Instr} {o : Outcome} (hi : w.insn = i.encode)
    (hc : ∀ v, i.csrAccess v = none) (ho : i.exec (h.env w) = some o) (ht : o.trap = none) :
    h.step vol w = ⟨o.next,h.regsNext o.dest,if i = .mret then h.csr.leave else h.csr⟩ ∧
    h.store vol w = stores (h.env w) i ∧
    h.event vol w = .retired ⟨h.pc,w.insn,o.dest.filter fun d => d.1 != 0⟩ := by
  have hs : Instr.decode w.insn = some i := by rw [hi,Instr.decode_encode]
  have hout : h.outcome vol w = o := by rw [outcome_exec vol hs (hc _),ho,Option.getD_some]
  have hcsr : h.csrNext vol w i = if i = .mret then h.csr.leave else h.csr := by rw [csrNext,hc]
  have hstep := step_retired (h := h) hs (show (h.outcome vol w).trap = none from hout ▸ ht)
  rwa [hout,hcsr] at hstep

theorem step_csr (vol : Volatile) {op : CsrOp} {addr : BitVec 12} {rd src : BitVec 5}
    {a : Csr.Access} (hi : w.insn = (Instr.csr op addr rd src).encode)
    (ha : a = ⟨addr,op.op,if op.immediate then src.setWidth 32 else h.regs src,src != 0⟩)
    (hl : ¬CsrIllegal a) :
    h.step vol w = ⟨h.pc+4,h.regsNext (some (rd,h.csr.read vol addr)),
      if a.writes then h.csr.put addr (op.op.apply (h.csr.read vol addr) a.src) else h.csr⟩ ∧
    h.store vol w = .idle ∧ h.event vol w = .retired ⟨h.pc,w.insn,
      (some (rd,h.csr.read vol addr)).filter fun d => d.1 != 0⟩ := by
  have hs : Instr.decode w.insn = some (.csr op addr rd src) := by rw [hi,Instr.decode_encode]
  have hw : w.insn = iType addr src op.funct3 rd 0b1110011 := hi
  have hrs1 : (h.env w).rs1 = h.regs src := by
    change h.regs (rs1Field w.insn) = _
    rw [hw,Instr.rs1Field_iType]
  have hrd : rdField w.insn = rd := by rw [hw,Instr.rdField_iType]
  have hacc : (Instr.csr op addr rd src).csrAccess (h.env w).rs1 = some a := by
    rw [Instr.csrAccess,hrs1,ha]
  have hout : h.outcome vol w = compute (h.env w) rd (h.csr.read vol addr) := by
    rw [outcome_csr vol hs hacc,if_neg hl,hrd,ha]
  have hcsr : h.csrNext vol w (.csr op addr rd src) =
      if a.writes then h.csr.put addr (op.op.apply (h.csr.read vol addr) a.src) else h.csr := by
    rw [csrNext,hacc,ha]
  have ht : (h.outcome vol w).trap = none := by rw [hout]; rfl
  have hstep := step_retired hs ht
  rwa [hout,hcsr] at hstep

theorem outcome_trap {vol : Volatile} {x : BitVec 5 × Word}
    (ht : (h.outcome vol w).trap = some x) : (h.outcome vol w).next = h.csr .mtvec := by
  cases hi : Instr.decode w.insn with
  | none => rw [outcome_illegal hi]; rfl
  | some i =>
    cases ha : i.csrAccess (h.env w).rs1 with
    | some a =>
      rw [outcome_csr vol hi ha] at ht ⊢
      split
      · rfl
      · rename_i hl
        rw [if_neg hl] at ht
        cases ht
    | none =>
      rw [outcome_exec vol hi ha] at ht ⊢
      cases he : i.exec (h.env w) with
      | none => rfl
      | some o =>
        rw [he] at ht
        exact exec_trap he ht

theorem event_trap {vol : Volatile} {a : Word} (he : (h.event vol w).trap = some a) :
    a = h.pc ∧ ∃ cause val,
      h.step vol w = ⟨h.csr .mtvec,h.regs,h.csr.enter h.pc cause val⟩ ∧
      h.store vol w = .idle := by
  cases ht : (h.outcome vol w).trap with
  | none =>
    rw [event,ht] at he
    cases he
  | some x =>
    obtain ⟨hs,hst,hev⟩ := step_trap ht
    rw [hev] at he
    refine ⟨(Option.some.inj he).symm,x.1,x.2,?_,hst⟩
    rw [hs,outcome_trap ht]

theorem event_commit {vol : Volatile} {c : Core.Commit} (he : (h.event vol w).commit = some c) :
    c.pc = h.pc ∧ ∀ d ∈ c.write, d.1 ≠ 0 := by
  rw [event] at he
  split at he
  · cases he
  · obtain rfl := Option.some.inj he
    refine ⟨rfl,fun d hd => ?_⟩
    simpa using (Option.filter_eq_some_iff.mp hd).2

end Hart

/-! ### Addresses stay aligned -/

theorem aligned_and (v : Word) : Aligned (v &&& 0xFFFFFFFC) := by
  rw [← Csr.aligned_warl]
  exact aligned_concat _

theorem aligned_of_fetch {t : Word} (h : t.toNat % 2 = 0) (hf : fetchMisaligned t = false) :
    Aligned t := by
  rw [fetchMisaligned_iff h,decide_eq_false_iff_not] at hf
  rw [aligned_iff_toNat]
  omega

theorem transfer_next {e : Env} (hv : Aligned e.mtvec) {t : Word} (ht : t.toNat % 2 = 0)
    (dest : Option (BitVec 5 × Word)) : Aligned (transfer e t dest).next := by
  rw [transfer]
  cases hf : fetchMisaligned t with
  | true => exact hv
  | false => exact aligned_of_fetch ht hf

theorem access_next {e : Env} (hp : Aligned e.pc) (hv : Aligned e.mtvec) (cause : BitVec 5)
    (size : Nat) (a : Word) (dest : Option (BitVec 5 × Word)) :
    Aligned (access e cause size a dest).next := by
  rw [access]
  split
  · exact hv
  · exact hp.add_four

theorem exec_next {e : Env} (hp : Aligned e.pc) (hv : Aligned e.mtvec) (hm : Aligned e.mepc)
    {i : Instr} {o : Outcome} (h : i.exec e = some o) : Aligned o.next := by
  have he : e.pc.toNat % 2 = 0 := by
    have := (aligned_iff_toNat _).mp hp
    omega
  cases i with
  | jal rd imm =>
    obtain rfl := Option.some.inj h
    exact transfer_next hv (add_offset_even he imm) _
  | jalr rd rs1 imm =>
    obtain rfl := Option.some.inj h
    exact transfer_next hv (clear_even _) _
  | branch c rs1 rs2 imm =>
    rw [Instr.exec] at h
    split at h
    · obtain rfl := Option.some.inj h
      exact transfer_next hv (add_offset_even he imm) _
    · obtain rfl := Option.some.inj h
      exact hp.add_four
  | load => obtain rfl := Option.some.inj h; exact access_next hp hv _ _ _ _
  | store => obtain rfl := Option.some.inj h; exact access_next hp hv _ _ _ _
  | ecall => obtain rfl := Option.some.inj h; exact hv
  | ebreak => obtain rfl := Option.some.inj h; exact hv
  | mret => obtain rfl := Option.some.inj h; exact hm
  | csr => cases h
  | _ => obtain rfl := Option.some.inj h; exact hp.add_four

theorem aligned_put {c : Csrs} {r : Csr.Reg} (hr : r = .mtvec ∨ r = .mepc) (h : Aligned (c r))
    (addr : Csr.Addr) (v : Word) : Aligned (c.put addr v r) := by
  rw [Csrs.put]
  split
  · rename_i ha
    subst ha
    rcases hr with rfl | rfl
    · exact aligned_and v
    · exact aligned_and v
  · exact h

namespace Hart

structure Wf (h : Hart) : Prop where
  pc : Aligned h.pc
  mtvec : Aligned (h.csr .mtvec)
  mepc : Aligned (h.csr .mepc)

variable {h : Hart} {w : View}

theorem Wf.outcome_next (hw : Wf h) (vol : Volatile) : Aligned (h.outcome vol w).next := by
  cases hi : Instr.decode w.insn with
  | none =>
    rw [outcome_illegal hi]
    exact hw.mtvec
  | some i =>
    cases ha : i.csrAccess (h.env w).rs1 with
    | some a =>
      rw [outcome_csr vol hi ha]
      split
      · exact hw.mtvec
      · exact hw.pc.add_four
    | none =>
      rw [outcome_exec vol hi ha]
      cases he : i.exec (h.env w) with
      | none => exact hw.mtvec
      | some o => exact exec_next (e := h.env w) hw.pc hw.mtvec hw.mepc he

theorem aligned_csrNext {r : Csr.Reg} (hr : r = .mtvec ∨ r = .mepc) (ha : Aligned (h.csr r))
    (vol : Volatile) (i : Instr) : Aligned (h.csrNext vol w i r) := by
  rw [csrNext]
  cases i.csrAccess (h.env w).rs1 with
  | some a =>
    dsimp only
    split
    · exact aligned_put hr ha _ _
    · exact ha
  | none =>
    dsimp only
    split
    · rcases hr with rfl | rfl <;> exact ha
    · exact ha

theorem Wf.step (hw : Wf h) (vol : Volatile) (w : View) : Wf (h.step vol w) := by
  have hn := hw.outcome_next (w := w) vol
  cases ht : (h.outcome vol w).trap with
  | some t =>
    rw [(step_trap ht).1]
    exact ⟨hn,hw.mtvec,aligned_and h.pc⟩
  | none =>
    rw [Hart.step,ht]
    refine ⟨hn,?_,?_⟩
    · cases Instr.decode w.insn with
      | none => exact hw.mtvec
      | some i => exact aligned_csrNext (.inl rfl) hw.mtvec vol i
    · cases Instr.decode w.insn with
      | none => exact hw.mepc
      | some i => exact aligned_csrNext (.inr rfl) hw.mepc vol i

theorem wf_reset {resetPc : Word} (h : Aligned resetPc) : Wf (reset resetPc) := ⟨h,rfl,rfl⟩

end Hart

namespace Machine

variable {aw : Nat} {base : Word} {m : Machine aw}

theorem run_add (base : Word) (m : Machine aw) (vol : Nat → Volatile) (n k : Nat) :
    run base (run base m vol n) (fun j => vol (n+j)) k = run base m vol (n+k) := by
  induction k with
  | zero => rfl
  | succ k ih =>
    change (run base (run base m vol n) _ k).step base (vol (n+k)) = _
    rw [ih]
    rfl

theorem step_exec (vol : Volatile) {i : Instr} {o : Outcome} (hi : m.fetch base = i.encode)
    (hc : ∀ v, i.csrAccess v = none) (ho : i.exec (m.env (m.view base)) = some o)
    (ht : o.trap = none) : m.step base vol =
      ⟨⟨o.next,m.regsNext o.dest,if i = .mret then m.csr.leave else m.csr⟩,
        m.memNext base (stores (m.env (m.view base)) i)⟩ ∧
      m.event base vol = .retired ⟨m.pc,m.fetch base,o.dest.filter fun d => d.1 != 0⟩ := by
  obtain ⟨hs,hst,he⟩ := Hart.step_exec (h := m.toHart) (w := m.view base) vol hi hc ho ht
  refine ⟨?_,he⟩
  rw [step,hs,hst]

theorem step_csr (vol : Volatile) {op : CsrOp} {addr : BitVec 12} {rd src : BitVec 5}
    {a : Csr.Access} (hi : m.fetch base = (Instr.csr op addr rd src).encode)
    (ha : a = ⟨addr,op.op,if op.immediate then src.setWidth 32 else m.regs src,src != 0⟩)
    (hl : ¬CsrIllegal a) :
    m.step base vol = ⟨⟨m.pc+4,m.regsNext (some (rd,m.csr.read vol addr)),
      if a.writes then m.csr.put addr (op.op.apply (m.csr.read vol addr) a.src) else m.csr⟩,
        m.mem⟩ ∧
    m.event base vol = .retired ⟨m.pc,m.fetch base,
      (some (rd,m.csr.read vol addr)).filter fun d => d.1 != 0⟩ := by
  obtain ⟨hs,hst,he⟩ := Hart.step_csr (h := m.toHart) (w := m.view base) vol hi ha hl
  refine ⟨?_,he⟩
  rw [step,hs,hst,memNext_idle]

theorem step_trap {vol : Volatile} {cause : BitVec 5} {val : Word}
    (ht : (m.outcome vol (m.view base)).trap = some (cause,val)) : m.step base vol =
      ⟨⟨(m.outcome vol (m.view base)).next,m.regs,m.csr.enter m.pc cause val⟩,m.mem⟩ ∧
      m.event base vol = .trapped m.pc cause val := by
  obtain ⟨hs,hst,he⟩ := Hart.step_trap ht
  refine ⟨?_,he⟩
  rw [step,hs,hst,memNext_idle]

theorem event_trap {vol : Volatile} {a : Word} (he : (m.event base vol).trap = some a) :
    a = m.pc ∧ ∃ cause val,
      m.step base vol = ⟨⟨m.csr .mtvec,m.regs,m.csr.enter m.pc cause val⟩,m.mem⟩ := by
  obtain ⟨hp,cause,val,hs,hst⟩ := Hart.event_trap he
  refine ⟨hp,cause,val,?_⟩
  rw [step,hs,hst,memNext_idle]

theorem wf_run (h : m.Wf) (base : Word) (vol : Nat → Volatile) (n : Nat) :
    (run base m vol n).Wf :=
  (machine base m).invariant (fun m => m.Wf) h (fun m v hw => hw.step v (m.view base)) vol n

end Machine

/-! ### Programs that read no counter -/

/-- What an instruction reads of a CSR is not seen, or it traps, or the CSR is a register or
reads the same in every machine. -/
def Unwatched (insn : Word) : Prop := ∀ op addr rd src,
  Instr.decode insn = some (.csr op addr rd src) →
    rd = 0 ∨ CsrIllegal ⟨addr,op.op,0,src != 0⟩ ∨
      (∃ r : Csr.Reg, r.addr = addr) ∨ addr = Csr.csrMisa ∨ ReadsZero addr

theorem read_unwatched {c : Csrs} {v w : Volatile} (hv : v.Ok) (hw : w.Ok) {addr : Csr.Addr}
    (h : (∃ r : Csr.Reg, r.addr = addr) ∨ addr = Csr.csrMisa ∨ ReadsZero addr) :
    c.read v addr = c.read w addr := by
  have heq : v addr = w addr → c.read v addr = c.read w addr := by
    intro h
    rw [Csrs.read,Csrs.read,h]
  rcases h with ⟨r,rfl⟩ | rfl | h
  · rw [Csrs.read_reg,Csrs.read_reg]
  · exact heq (hv.misa.trans hw.misa.symm)
  · exact heq ((hv.zero _ h).trans (hw.zero _ h).symm)

theorem Hart.step_congr {h : Hart} {w : Hart.View} {v v' : Volatile}
    (ht : (h.outcome v w).trap = (h.outcome v' w).trap)
    (hn : (h.outcome v w).next = (h.outcome v' w).next)
    (hr : h.regsNext (h.outcome v w).dest = h.regsNext (h.outcome v' w).dest)
    (hf : ((h.outcome v w).dest.filter fun d => d.1 != 0) =
      (h.outcome v' w).dest.filter fun d => d.1 != 0)
    (hc : (h.outcome v w).trap = none →
      ∀ i, Instr.decode w.insn = some i → h.csrNext v w i = h.csrNext v' w i) :
    h.step v w = h.step v' w ∧ h.store v w = h.store v' w ∧ h.event v w = h.event v' w := by
  rw [step,step,store,store,event,event,← ht,← hn,← hr,← hf]
  cases hx : (h.outcome v w).trap with
  | none =>
    refine ⟨?_,rfl,rfl⟩
    cases hi : Instr.decode w.insn with
    | none => rfl
    | some i =>
      rw [Option.map_some,Option.map_some,hc hx i hi]
  | some x => exact ⟨rfl,rfl,rfl⟩

theorem Hart.regsNext_x0 (h : Hart) (v : Word) : h.regsNext (some (0,v)) = h.regs := by
  funext q
  simp [Hart.regsNext]

theorem Csrs.put_other {c : Csrs} {addr : Csr.Addr} (h : ¬∃ r : Csr.Reg, r.addr = addr) (v : Word) :
    c.put addr v = c := by
  funext r
  exact if_neg fun hr => h ⟨r,hr⟩

theorem Hart.step_unwatched {h : Hart} {w : Hart.View} {v v' : Volatile} (hv : v.Ok)
    (hv' : v'.Ok) (hu : Unwatched w.insn) : h.step v w = h.step v' w ∧
      h.store v w = h.store v' w ∧ h.event v w = h.event v' w := by
  have hsame : h.outcome v w = h.outcome v' w →
      ((h.outcome v w).trap = none →
        ∀ i, Instr.decode w.insn = some i → h.csrNext v w i = h.csrNext v' w i) →
      h.step v w = h.step v' w ∧ h.store v w = h.store v' w ∧ h.event v w = h.event v' w :=
    fun ho hc => step_congr (congrArg _ ho) (congrArg _ ho) (congrArg _ (congrArg _ ho))
      (congrArg _ (congrArg _ ho)) hc
  cases hi : Instr.decode w.insn with
  | none =>
    refine hsame (by rw [outcome_illegal hi,outcome_illegal hi]) fun _ i h => ?_
    rw [hi] at h
    cases h
  | some i =>
    cases ha : i.csrAccess (h.env w).rs1 with
    | none =>
      refine hsame (by rw [outcome_exec v hi ha,outcome_exec v' hi ha]) fun _ j hj => ?_
      obtain rfl := Option.some.inj (hi.symm.trans hj)
      rw [csrNext,csrNext,ha]
    | some a =>
      cases i with
      | csr op addr rd src =>
        have ho := outcome_csr (h := h) v hi ha
        have ho' := outcome_csr (h := h) v' hi ha
        obtain rfl := Option.some.inj ha
        -- it is seen only where the access is legal and goes to a register
        have hread : h.csr.read v addr = h.csr.read v' addr →
            h.step v w = h.step v' w ∧ h.store v w = h.store v' w ∧
              h.event v w = h.event v' w := by
          intro hr
          refine hsame (by rw [ho,ho',hr]) fun _ j hj => ?_
          obtain rfl := Option.some.inj (hi.symm.trans hj)
          rw [csrNext,csrNext,ha]
          simp only [hr]
        have htrap : CsrIllegal ⟨addr,op.op,
              if op.immediate then src.setWidth 32 else (h.env w).rs1,src != 0⟩ →
            h.step v w = h.step v' w ∧ h.store v w = h.store v' w ∧
              h.event v w = h.event v' w := by
          intro hl
          rw [if_pos hl] at ho ho'
          refine hsame (ho.trans ho'.symm) fun ht => ?_
          rw [ho] at ht
          cases ht
        rcases hu op addr rd src hi with rfl | hl | hr
        · by_cases hreg : ∃ r : Csr.Reg, r.addr = addr
          · exact hread (read_unwatched hv hv' (.inl hreg))
          · by_cases hl : CsrIllegal ⟨addr,op.op,
                if op.immediate then src.setWidth 32 else (h.env w).rs1,src != 0⟩
            · exact htrap hl
            · have hrd : rdField w.insn = 0 := by
                rw [← Instr.encode_of_decode hi]
                exact Instr.rdField_iType _ _ _ _ _
              rw [if_neg hl,hrd] at ho ho'
              refine step_congr (by rw [ho,ho']; rfl) (by rw [ho,ho']; rfl) ?_ (by rw [ho,ho']; rfl)
                fun _ j hj => ?_
              · rw [ho,ho']
                exact (regsNext_x0 h _).trans (regsNext_x0 h _).symm
              · obtain rfl := Option.some.inj (hi.symm.trans hj)
                rw [csrNext,csrNext,ha]
                dsimp only
                rw [Csrs.put_other hreg,Csrs.put_other hreg]
        · exact htrap hl
        · exact hread (read_unwatched hv hv' hr)
      | _ => cases ha

namespace Machine

variable {aw : Nat} {base : Word} {m : Machine aw}

def Unwatched (base : Word) (m : Machine aw) : Prop := Isa.Unwatched (m.fetch base)

theorem step_unwatched {v w : Volatile} (hv : v.Ok) (hw : w.Ok) (h : m.Unwatched base) :
    m.step base v = m.step base w ∧ m.event base v = m.event base w := by
  obtain ⟨hs,hst,he⟩ := Hart.step_unwatched (h := m.toHart) (w := m.view base) hv hw h
  rw [step,step,hs,hst]
  exact ⟨rfl,he⟩

/-- Where no counter is read, runs do not depend on what the counters read. -/
theorem run_unwatched {v w : Nat → Volatile} (hv : ∀ k, (v k).Ok) (hw : ∀ k, (w k).Ok)
    (h : ∀ k, (run base m v k).Unwatched base) (n : Nat) :
    run base m v n = run base m w n ∧ ∀ k < n, eventAt base m v k = eventAt base m w k := by
  induction n with
  | zero => exact ⟨rfl,fun k hk => absurd hk (Nat.not_lt_zero k)⟩
  | succ n ih =>
    obtain ⟨hs,he⟩ := step_unwatched (hv n) (hw n) (h n)
    refine ⟨?_,fun k hk => ?_⟩
    · change (run base m v n).step base (v n) = (run base m w n).step base (w n)
      rw [hs,ih.1]
    · rcases Nat.lt_succ_iff_lt_or_eq.mp hk with hk | rfl
      · exact ih.2 k hk
      · rw [eventAt,eventAt,he,ih.1]

theorem commits_unwatched {v w : Nat → Volatile} (hv : ∀ k, (v k).Ok) (hw : ∀ k, (w k).Ok)
    (h : ∀ k, (run base m v k).Unwatched base) (n : Nat) :
    commits base m v n = commits base m w n := by
  induction n with
  | zero => exact (Clocked.events_zero _).trans (Clocked.events_zero _).symm
  | succ n ih =>
    have he := (run_unwatched hv hw h (n+1)).2 n (Nat.lt_succ_self n)
    have hsucc : ∀ v : Nat → Volatile, commits base m v (n+1) =
        commits base m v n ++ (eventAt base m v n).commit.toList := fun _ => Clocked.events_succ _ n
    rw [hsucc,hsucc,ih,he]

end Machine

end Rvntt.Isa
