import Mathlib.Algebra.BigOperators.Ring.Finset
import Mathlib.Data.BitVec
import Mathlib.Tactic.IntervalCases
import Mathlib.Tactic.Ring
import Rvntt.Operands
set_option autoImplicit false

/-!
The two counters of instructions and cycles against the events that explain them.
-/

namespace Rvntt.Core

open scoped Finset

/-! ### minstret -/

theorem instretBump_eq (s : State) : instretBump s = retires s := by
  simp only [instretBump,retires,exDone]
  cases s.idExQ.valid <;> cases exTrap s <;> cases exStall s <;> rfl

theorem csrWen_not_mret {s : State} (hd : s.idExQ.valid = true → Decoded s.idExQ)
    (h : (ex s).csrWen = true) : (ex s).mret = false := by
  have hq : (ex s).q = s.idExQ := rfl
  simp only [Ex.csrWen,hq,Bool.and_eq_true] at h
  have hs := (hd h.1.1).ctrl ▸ decode_shape s.idExQ.insn
  have hc := h.1.2
  simp only [Ex.mret,hq]
  generalize s.idExQ.ctrl = c at hs hc
  cases hs with
  | mret => cases hc
  | _ => simp [ctrlLui,ctrlAuipc,ctrlJal,ctrlJalr,ctrlBranch,ctrlLoad,ctrlStore,ctrlOpImm,ctrlOp,
      ctrlCsrReg,ctrlCsrImm,Ctrl.illegal]

def minstretWrite (s : State) : Option (BitVec 64) :=
  if !exTrap s && Csr.minstretWritten (ex s).csrAddr (ex s).csrWen then
    some (if (ex s).csrAddr = Csr.csrMinstret then Csr.setLo s.csr.minstretQ (ex s).csrWdata
      else Csr.setHi s.csr.minstretQ (ex s).csrWdata)
  else none

theorem minstretQ_next {s : State} (i : In) (hd : s.idExQ.valid = true → Decoded s.idExQ) :
    (next s i).csr.minstretQ = (minstretWrite s).getD
      (s.csr.minstretQ+if retires s && !s.csr.inhibitIrQ then 1 else 0) := by
  have hn : (next s i).csr = Csr.next s.csr ((ex s).csrIn (instretBump s) s.hpmEventQ) := rfl
  rw [hn,Csr.next_minstret,minstretWrite]
  have hm : Csr.minstretWritten (ex s).csrAddr (ex s).csrWen = true → (ex s).mret = false := by
    intro h
    have hw := (Csr.counterAddr_minstret h).2
    simp only [Csr.doWrite,Bool.and_eq_true] at hw
    exact csrWen_not_mret hd hw.1.1
  have htick : Csr.tickMinstret s.csr ((ex s).csrIn (instretBump s) s.hpmEventQ) =
      if retires s && !Csr.minstretWritten (ex s).csrAddr (ex s).csrWen && !s.csr.inhibitIrQ then
        s.csr.minstretQ+1 else s.csr.minstretQ := by
    rw [← instretBump_eq]
    rfl
  rw [htick]
  simp only [Ex.csrIn,exTrap]
  by_cases ht : (ex s).trap = true
  · simp [ht,retires,exTrap]
  · by_cases hw : Csr.minstretWritten (ex s).csrAddr (ex s).csrWen = true
    · simp only [ht,hw,hm hw,Bool.not_false,Bool.and_true,if_true,Option.getD_some]
      rfl
    · simp only [ht,hw]
      cases retires s <;> cases s.csr.inhibitIrQ <;> simp

section run

variable (resetPc : Word) (x : Nat → In)

/-- The cycle of the last write to `minstret` or `minstreth` before `t`. -/
def lastMinstretWrite : Nat → Option Nat
  | 0 => none
  | t+1 => if (minstretWrite (run resetPc x t)).isSome then some t else lastMinstretWrite t

/-- The instruction in EX in cycle `u` reaches the commit port, and ran with
`mcountinhibit.IR` clear. -/
def counted (u : Nat) : Bool :=
  (commit (run resetPc x (u+2))).isSome && !(run resetPc x u).csr.inhibitIrQ

def countedIn (a b : Nat) : Nat := ∑ u ∈ Finset.Ico a b, (counted resetPc x u).toNat

def minstretSpec (t : Nat) : BitVec 64 :=
  match lastMinstretWrite resetPc x t with
  | none => BitVec.ofNat 64 (countedIn resetPc x 0 t)
  | some w => (minstretWrite (run resetPc x w)).getD 0+
      BitVec.ofNat 64 (countedIn resetPc x (w+1) t)

theorem lastMinstretWrite_lt {t w : Nat} (h : lastMinstretWrite resetPc x t = some w) :
    w+1 ≤ t := by
  induction t with
  | zero => cases h
  | succ t ih =>
    rw [lastMinstretWrite] at h
    split at h
    · cases h; omega
    · have hw := ih h; omega

theorem countedIn_succ {a t : Nat} (h : a ≤ t) : BitVec.ofNat 64 (countedIn resetPc x a (t+1)) =
    BitVec.ofNat 64 (countedIn resetPc x a t)+
      if retires (run resetPc x t) && !(run resetPc x t).csr.inhibitIrQ then 1 else 0 := by
  rw [countedIn,Finset.sum_Ico_succ_top h,BitVec.ofNat_add,counted,commit_two]
  cases retires (run resetPc x t) && !(run resetPc x t).csr.inhibitIrQ <;> rfl

theorem minstretQ_eq (t : Nat) : (run resetPc x t).csr.minstretQ = minstretSpec resetPc x t := by
  induction t with
  | zero => rfl
  | succ t ih =>
    rw [run_next,minstretQ_next _ (run_decoded resetPc x t),ih]
    unfold minstretSpec
    rw [lastMinstretWrite]
    cases hw : minstretWrite (run resetPc x t) with
    | some v => simp [hw,countedIn]
    | none =>
      simp only [Option.isSome_none,Bool.false_eq_true,if_false,Option.getD_none]
      cases hl : lastMinstretWrite resetPc x t with
      | none => exact (countedIn_succ resetPc x (Nat.zero_le t)).symm
      | some w =>
        dsimp only
        rw [countedIn_succ resetPc x (lastMinstretWrite_lt resetPc x hl),← add_assoc]

/-- `minstret` is exact in every cycle, and the four CSR addresses read it. -/
theorem minstret_exact (t : Nat) (seedRdata : Word) :
    (run resetPc x t).csr.minstretQ = minstretSpec resetPc x t ∧
    Csr.rdata (run resetPc x t).csr seedRdata Csr.csrMinstret =
      (minstretSpec resetPc x t).extractLsb' 0 32 ∧
    Csr.rdata (run resetPc x t).csr seedRdata Csr.csrInstret =
      (minstretSpec resetPc x t).extractLsb' 0 32 ∧
    Csr.rdata (run resetPc x t).csr seedRdata Csr.csrMinstreth =
      (minstretSpec resetPc x t).extractLsb' 32 32 ∧
    Csr.rdata (run resetPc x t).csr seedRdata Csr.csrInstreth =
      (minstretSpec resetPc x t).extractLsb' 32 32 := by
  rw [← minstretQ_eq]
  exact ⟨rfl,rfl,rfl,rfl,rfl⟩

end run

/-! ### Where the cycles go -/

def slack (s : State) : Nat := if s.idExQ.valid then 0 else if s.ifIdQ.valid then 1 else 2

def cost (s : State) (i : In) : Nat :=
  (exDone s).toNat+(exStall s).toNat+(idStall s i && !exRedirect s).toNat+
    2*(exRedirect s).toNat

theorem slack_next {a : Word} {s : State} (i : In) (hf : Flow a s)
    (hd : s.idExQ.valid = true → Decoded s.idExQ) :
    1+slack (next s i) = cost s i+slack s := by
  cases edge s i with
  | hold hs _ _ _ hex _ =>
    have hv := (exStall_req hs).1
    have hr : exRedirect s = false := by simp [exRedirect,hs]
    have hl : idStall s i = false := by
      by_contra h
      rw [stalls_disjoint i hd (by simpa using h)] at hs
      cases hs
    simp [slack,cost,hex,heldEx,hv,hs,hr,hl,exDone]
  | redirect hs hr _ hid _ hex _ =>
    simp [slack,cost,hex,hid,hs,hr,exRedirect_done hr,exRedirect_valid hr]
  | loaduse hs hr hl _ hid _ hex _ =>
    obtain ⟨hiv,hv,_⟩ := idStall_parts hl
    simp [slack,cost,hex,hid,hs,hr,hl,hiv,hv,exDone]
  | advance hs hr hl _ hid _ hex _ =>
    cases hiv : s.ifIdQ.valid with
    | true => cases hv : s.idExQ.valid <;>
        simp [slack,cost,hex,idIssue,hs,hr,hl,hiv,hv,exDone]
    | false =>
      have hv := (hf.empty hiv).1
      simp [slack,cost,hex,hid,idIssue,fetched,hs,hr,hl,hiv,hv,exDone]

/-! ### The counting window -/

/-- EX writes one of the counters, a selector or the inhibit register. -/
def counterWrite (s : State) : Bool :=
  !exTrap s && Csr.doWrite (ex s).csrAddr (ex s).csrWen && Csr.counterAddr (ex s).csrAddr

structure SetsInhibit (s : State) (v : Bool) : Prop where
  noTrap : exTrap s = false
  wen : (ex s).csrWen = true
  addr : (ex s).csrAddr = Csr.csrMcountinhibit
  bits : ∀ b ∈ [0,2,3,4,5], (ex s).csrWdata.getLsbD b = v

/-- Everything held, and the first three selectors at load-use, multi-cycle EX and
redirect. -/
structure Programmed (c : Csr.State) : Prop where
  cy : c.inhibitCyQ = true
  ir : c.inhibitIrQ = true
  hpm : ∀ k : Fin 6, k.val < 3 → c.inhibitHpmQ.getLsbD k.val = true
  loaduse : c.mhpmeventQ 0 = hpmEvLoaduse
  exstall : c.mhpmeventQ 1 = hpmEvExstall
  redirect : c.mhpmeventQ 2 = hpmEvRedirect

/-- The counters run from the write in cycle `r` to the write in cycle `f`, and are
read in cycle `g`. -/
structure Window (resetPc : Word) (x : Nat → In) (r f g : Nat) : Prop where
  order : r < f ∧ f < g
  programmed : Programmed (run resetPc x r).csr
  release : SetsInhibit (run resetPc x r) false
  freeze : SetsInhibit (run resetPc x f) true
  quiet : ∀ u, r < u → u < f →
    exTrap (run resetPc x u) = false ∧ counterWrite (run resetPc x u) = false
  after : ∀ u, f < u → u < g → counterWrite (run resetPc x u) = false

/-- The documented identity over a window. -/
def Closes (resetPc : Word) (x : Nat → In) (r g : Nat) : Prop :=
  let c := (run resetPc x r).csr
  let c' := (run resetPc x g).csr
  c'.mcycleQ-c.mcycleQ = (c'.minstretQ-c.minstretQ)+
    (c'.mhpmcounterQ 0-c.mhpmcounterQ 0)+(c'.mhpmcounterQ 1-c.mhpmcounterQ 1)+
    2*(c'.mhpmcounterQ 2-c.mhpmcounterQ 2)

structure Running (c : Csr.State) : Prop where
  cy : c.inhibitCyQ = false
  ir : c.inhibitIrQ = false
  loaduse : c.hpmWatchQ 0 = 0b000001
  exstall : c.hpmWatchQ 1 = 0b000010
  redirect : c.hpmWatchQ 2 = 0b000100

structure Frozen (c : Csr.State) : Prop where
  cy : c.inhibitCyQ = true
  ir : c.inhibitIrQ = true
  watch : ∀ k : Fin 6, k.val < 3 → c.hpmWatchQ k = 0

structure SameValues (c c' : Csr.State) : Prop where
  mcycle : c'.mcycleQ = c.mcycleQ
  minstret : c'.minstretQ = c.minstretQ
  hpm : ∀ k : Fin 6, k.val < 3 → c'.mhpmcounterQ k = c.mhpmcounterQ k

theorem csr_next (s : State) (i : In) : (next s i).csr =
    Csr.next s.csr ((ex s).csrIn (instretBump s) s.hpmEventQ) := rfl

theorem frozen_tick {c : Csr.State} (h : Frozen c) (i : Csr.In) :
    SameValues c (Csr.tick c i) := by
  refine ⟨?_,?_,?_⟩
  · simp [Csr.tick,Csr.tickMcycle,h.cy]
  · simp [Csr.tick,Csr.tickMinstret,h.ir]
  · intro k hk
    simp [Csr.tick,Csr.tickHpm,h.watch k hk]

theorem programmed_frozen {c : Csr.State} (h : Programmed c) (hw : Csr.WatchOk c) :
    Frozen c := by
  refine ⟨h.cy,h.ir,fun k hk => ?_⟩
  rw [hw k,h.hpm k hk]
  rfl

theorem writing_of_setsInhibit {s : State} {v : Bool}
    (hd : s.idExQ.valid = true → Decoded s.idExQ) (h : SetsInhibit s v) :
    Csr.writing ((ex s).csrIn (instretBump s) s.hpmEventQ) = true := by
  have ht : (ex s).trap = false := h.noTrap
  have hm := csrWen_not_mret hd h.wen
  simp only [Csr.writing,Ex.csrIn,ht,hm,h.wen,h.addr]
  rfl

theorem csr_next_setsInhibit {s : State} {v : Bool} (i : In)
    (hd : s.idExQ.valid = true → Decoded s.idExQ) (h : SetsInhibit s v) :
    (next s i).csr = Csr.write (Csr.tick s.csr ((ex s).csrIn (instretBump s) s.hpmEventQ))
      Csr.csrMcountinhibit (ex s).csrWdata := by
  rw [csr_next,Csr.next_writing (writing_of_setsInhibit hd h)]
  change Csr.write _ (ex s).csrAddr _ = _
  rw [h.addr]
  rfl

theorem csr_next_quiet {s : State} (i : In) (h : counterWrite s = false) :
    Csr.SameCounters (Csr.tick s.csr ((ex s).csrIn (instretBump s) s.hpmEventQ))
      (next s i).csr := by
  rw [csr_next]
  refine Csr.next_other fun hw => ?_
  simp only [Csr.writing,Ex.csrIn,Bool.and_eq_true,Bool.not_eq_true'] at hw
  simpa [counterWrite,exTrap,Ex.csrIn,hw.1.1,hw.2] using h

theorem setsInhibit_done {s : State} {v : Bool}
    (hd : s.idExQ.valid = true → Decoded s.idExQ) (h : SetsInhibit s v) :
    exDone s = true ∧ s.idExQ.ctrl.memRead = false := by
  have hw := h.wen
  have hq : (ex s).q = s.idExQ := rfl
  simp only [Ex.csrWen,hq,Bool.and_eq_true] at hw
  have hv := hw.1.1
  have hs := (hd hv).ctrl ▸ decode_shape s.idExQ.insn
  have hc := hw.1.2
  have hmd : s.idExQ.ctrl.isMuldiv = false ∧ s.idExQ.ctrl.memRead = false := by
    generalize s.idExQ.ctrl = c at hs hc
    cases hs with
    | csrReg => exact ⟨rfl,rfl⟩
    | csrImm => exact ⟨rfl,rfl⟩
    | _ => cases hc
  exact ⟨by simp [exDone,exStall,exMdReq,hv,hmd.1],hmd.2⟩

theorem quiet_not_written {s : State} (ht : exTrap s = false)
    (h : counterWrite s = false ∨ (ex s).csrAddr = Csr.csrMcountinhibit) :
    Csr.minstretWritten (ex s).csrAddr (ex s).csrWen = false ∧
      Csr.hpmWritten (ex s).csrAddr (ex s).csrWen = false := by
  rcases h with h | h
  · simp only [counterWrite,ht,Bool.not_false,Bool.true_and,Bool.and_eq_false_iff] at h
    rcases h with h | h
    · simp [Csr.minstretWritten,Csr.hpmWritten,h]
    · simp only [Csr.counterAddr,Bool.or_eq_false_iff,List.contains_eq_mem,
        decide_eq_false_iff_not,List.mem_cons,not_or] at h
      obtain ⟨⟨_,_,h1,h2,_⟩,h3⟩ := h
      refine ⟨by simp [Csr.minstretWritten,h1,h2],?_⟩
      cases hi : Csr.hpmImpl (ex s).csrAddr with
      | false => simp [Csr.hpmWritten,hi]
      | true =>
        simp only [hi,Bool.true_and,Bool.or_eq_false_iff] at h3
        simp [Csr.hpmWritten,h3.1.1,h3.1.2]
  · rw [h]
    cases (ex s).csrWen <;> decide

theorem and_bit_ne_zero : ∀ e : BitVec 6,
    ((0b000001 &&& e ≠ 0) ↔ e.getLsbD 0 = true) ∧ ((0b000010 &&& e ≠ 0) ↔ e.getLsbD 1 = true) ∧
      ((0b000100 &&& e ≠ 0) ↔ e.getLsbD 2 = true) := by decide

structure Ticks (s : State) (c' : Csr.State) : Prop where
  mcycle : c'.mcycleQ = s.csr.mcycleQ+1
  minstret : c'.minstretQ = s.csr.minstretQ+((retires s).toNat : BitVec 64)
  hpm : ∀ k : Fin 6, k.val < 3 →
    c'.mhpmcounterQ k = s.csr.mhpmcounterQ k+((s.hpmEventQ.getLsbD k.val).toNat : BitVec 64)

theorem ticks_tick {s : State} (hr : Running s.csr) (ht : exTrap s = false)
    (h : counterWrite s = false ∨ (ex s).csrAddr = Csr.csrMcountinhibit) :
    Ticks s (Csr.tick s.csr ((ex s).csrIn (instretBump s) s.hpmEventQ)) := by
  obtain ⟨hm,hh⟩ := quiet_not_written ht h
  obtain ⟨b0,b1,b2⟩ := and_bit_ne_zero s.hpmEventQ
  refine ⟨?_,?_,?_⟩
  · simp [Csr.tick,Csr.tickMcycle,hr.cy]
  · have hn : (Csr.tick s.csr ((ex s).csrIn (instretBump s) s.hpmEventQ)).minstretQ =
        if retires s && !Csr.minstretWritten (ex s).csrAddr (ex s).csrWen && !s.csr.inhibitIrQ then
          s.csr.minstretQ+1 else s.csr.minstretQ := by
      rw [← instretBump_eq]
      rfl
    rw [hn,hm,hr.ir]
    cases retires s <;> simp
  · have hk : ∀ k : Fin 6, (s.csr.hpmWatchQ k &&& s.hpmEventQ ≠ 0 ↔
        s.hpmEventQ.getLsbD k.val = true) →
        (Csr.tick s.csr ((ex s).csrIn (instretBump s) s.hpmEventQ)).mhpmcounterQ k =
          s.csr.mhpmcounterQ k+((s.hpmEventQ.getLsbD k.val).toNat : BitVec 64) := by
      intro k hb
      have hn : (Csr.tick s.csr ((ex s).csrIn (instretBump s) s.hpmEventQ)).mhpmcounterQ k =
          if s.csr.hpmWatchQ k &&& s.hpmEventQ ≠ 0 ∧
            ¬(Csr.hpmWritten (ex s).csrAddr (ex s).csrWen = true ∧
              Csr.hpmSel (ex s).csrAddr = BitVec.ofNat 3 k.val) then
            s.csr.mhpmcounterQ k+1 else s.csr.mhpmcounterQ k := rfl
      rw [hn,hh]
      simp only [hb,Bool.false_eq_true,false_and,not_false_eq_true,and_true]
      cases s.hpmEventQ.getLsbD k.val <;> simp
    intro k hlt
    refine hk k ?_
    rcases (by omega : k.val = 0 ∨ k.val = 1 ∨ k.val = 2) with h' | h' | h'
    · rw [show k = 0 from Fin.ext h',hr.loaduse]; exact b0
    · rw [show k = 1 from Fin.ext h',hr.exstall]; exact b1
    · rw [show k = 2 from Fin.ext h',hr.redirect]; exact b2

theorem hpmEventC_bits (s : State) (i : In) :
    (hpmEventC s i).getLsbD 0 = evLoaduse s i ∧ (hpmEventC s i).getLsbD 1 = exStall s ∧
      (hpmEventC s i).getLsbD 2 = exRedirect s ∧
      (hpmEventC s i).getLsbD 3 = evMispredict s := by
  unfold hpmEventC
  generalize evXferTaken s = b5
  generalize evBtbHit s = b4
  generalize evMispredict s = b3
  generalize exRedirect s = b2
  generalize exStall s = b1
  generalize evLoaduse s i = b0
  revert b0 b1 b2 b3 b4 b5
  decide

section window

variable {resetPc : Word} {x : Nat → In} {r f g : Nat}

theorem run_watchOk (resetPc : Word) (x : Nat → In) (t : Nat) :
    Csr.WatchOk (run resetPc x t).csr := by
  refine (machine resetPc).invariant (fun s => Csr.WatchOk s.csr) Csr.watchOk_reset ?_ x t
  intro s i h
  change Csr.WatchOk (next s i).csr
  rw [csr_next]
  exact Csr.watchOk_next _ h

theorem Window.sameValues_release (w : Window resetPc x r f g) :
    SameValues (run resetPc x r).csr (run resetPc x (r+1)).csr := by
  have hf := programmed_frozen w.programmed (run_watchOk resetPc x r)
  obtain ⟨h1,h2,h3⟩ := frozen_tick hf ((ex (run resetPc x r)).csrIn
    (instretBump (run resetPc x r)) (run resetPc x r).hpmEventQ)
  rw [run_next,csr_next_setsInhibit _ (run_decoded resetPc x r) w.release,Csr.write_inhibit]
  exact ⟨h1,h2,h3⟩

theorem Window.running (w : Window resetPc x r f g) (u : Nat) (h1 : r < u) (h2 : u ≤ f) :
    Running (run resetPc x u).csr := by
  induction u with
  | zero => omega
  | succ u ih =>
    rw [run_next]
    rcases Nat.lt_or_ge r u with h | h
    · have hu := ih h (by omega)
      have hs := csr_next_quiet (x u) (w.quiet u h (by omega)).2
      refine ⟨hs.cy.trans hu.cy,hs.ir.trans hu.ir,?_,?_,?_⟩
      · rw [hs.watch]; exact hu.loaduse
      · rw [hs.watch]; exact hu.exstall
      · rw [hs.watch]; exact hu.redirect
    · obtain rfl : u = r := by omega
      have hb := w.release.bits
      simp only [List.mem_cons,forall_eq_or_imp] at hb
      obtain ⟨b0,b2,b3,b4,b5,_⟩ := hb
      have hp := w.programmed
      rw [csr_next_setsInhibit _ (run_decoded resetPc x u) w.release,Csr.write_inhibit]
      refine ⟨b0,b2,?_,?_,?_⟩
      · change Csr.hpmMask ((run resetPc x u).csr.mhpmeventQ 0) _ = _
        rw [hp.loaduse]
        exact congrArg _ b3
      · change Csr.hpmMask ((run resetPc x u).csr.mhpmeventQ 1) _ = _
        rw [hp.exstall]
        exact congrArg _ b4
      · change Csr.hpmMask ((run resetPc x u).csr.mhpmeventQ 2) _ = _
        rw [hp.redirect]
        exact congrArg _ b5

theorem Window.noTrap (w : Window resetPc x r f g) (u : Nat) (h1 : r ≤ u) (h2 : u ≤ f) :
    exTrap (run resetPc x u) = false := by
  rcases (by omega : u = r ∨ u = f ∨ (r < u ∧ u < f)) with rfl | rfl | ⟨h,h'⟩
  · exact w.release.noTrap
  · exact w.freeze.noTrap
  · exact (w.quiet u h h').1

theorem Window.ticks (w : Window resetPc x r f g) (u : Nat) (h1 : r < u) (h2 : u ≤ f) :
    Ticks (run resetPc x u) (run resetPc x (u+1)).csr := by
  have hr := w.running u h1 h2
  have ht := w.noTrap u (by omega) h2
  rw [run_next]
  rcases Nat.lt_or_ge u f with h | h
  · have hq := (w.quiet u h1 h).2
    have hs := csr_next_quiet (x u) hq
    obtain ⟨t1,t2,t3⟩ := ticks_tick hr ht (.inl hq)
    exact ⟨hs.mcycle.trans t1,hs.minstret.trans t2,fun k hk => by rw [hs.hpm]; exact t3 k hk⟩
  · obtain rfl : u = f := by omega
    obtain ⟨t1,t2,t3⟩ := ticks_tick hr ht (.inr w.freeze.addr)
    rw [csr_next_setsInhibit _ (run_decoded resetPc x u) w.freeze,Csr.write_inhibit]
    exact ⟨t1,t2,t3⟩

theorem Window.frozen_next (w : Window resetPc x r f g) :
    Frozen (run resetPc x (f+1)).csr := by
  have hb := w.freeze.bits
  simp only [List.mem_cons,forall_eq_or_imp] at hb
  obtain ⟨b0,b2,b3,b4,b5,_⟩ := hb
  have hwatch := run_watchOk resetPc x (f+1)
  rw [run_next,csr_next_setsInhibit _ (run_decoded resetPc x f) w.freeze,
    Csr.write_inhibit] at hwatch ⊢
  refine ⟨b0,b2,fun k hk => ?_⟩
  have hset : (ex (run resetPc x f)).csrWdata.getLsbD (Csr.hpmFirst+k.val) = true := by
    rcases (by omega : k.val = 0 ∨ k.val = 1 ∨ k.val = 2) with h | h | h
    · rw [h]; exact b3
    · rw [h]; exact b4
    · rw [h]; exact b5
  change Csr.hpmMask _ _ = _
  rw [hset]
  rfl

theorem Window.frozen (w : Window resetPc x r f g) (u : Nat) (h1 : f < u) (h2 : u ≤ g) :
    Frozen (run resetPc x u).csr ∧ SameValues (run resetPc x (f+1)).csr (run resetPc x u).csr := by
  induction u with
  | zero => omega
  | succ u ih =>
    rcases Nat.lt_or_ge f u with h | h
    · obtain ⟨hf,hv⟩ := ih h (by omega)
      have hs := csr_next_quiet (x u) (w.after u h (by omega))
      obtain ⟨v1,v2,v3⟩ := frozen_tick hf ((ex (run resetPc x u)).csrIn
        (instretBump (run resetPc x u)) (run resetPc x u).hpmEventQ)
      rw [run_next resetPc x u]
      refine ⟨⟨hs.cy.trans hf.cy,hs.ir.trans hf.ir,fun k hk => ?_⟩,?_,?_,fun k hk => ?_⟩
      · rw [hs.watch]; exact hf.watch k hk
      · rw [hs.mcycle,v1,hv.mcycle]
      · rw [hs.minstret,v2,hv.minstret]
      · rw [hs.hpm,v3 k hk,hv.hpm k hk]
    · obtain rfl : u = f := by omega
      exact ⟨w.frozen_next,rfl,rfl,fun _ _ => rfl⟩

/-! ### The sums over a window -/

theorem Window.total (w : Window resetPc x r f g) (c : Csr.State → BitVec 64) (n : Nat → Nat)
    (hs : c (run resetPc x (r+1)).csr = c (run resetPc x r).csr)
    (he : c (run resetPc x g).csr = c (run resetPc x (f+1)).csr)
    (ht : ∀ u, r < u → u ≤ f →
      c (run resetPc x (u+1)).csr = c (run resetPc x u).csr+((n u : Nat) : BitVec 64)) :
    c (run resetPc x g).csr-c (run resetPc x r).csr =
      ((∑ u ∈ Finset.Ico (r+1) (f+1), n u : Nat) : BitVec 64) := by
  have h := Clocked.accumulate (fun t => c (run resetPc x t).csr)
    (fun u => ((n u : Nat) : BitVec 64)) (r := r+1) (f := f+1)
    (by have := w.order.1; omega) (fun t h1 h2 => ht t h1 (by omega))
  rw [he,h,hs,Nat.cast_sum]
  ring

/-- The event bus is registered: the window of events is one cycle earlier. -/
theorem events_shift (k : Nat) :
    (∑ u ∈ Finset.Ico (r+1) (f+1), ((run resetPc x u).hpmEventQ.getLsbD k).toNat) =
      ∑ u ∈ Finset.Ico r f, ((hpmEventC (run resetPc x u) (x u)).getLsbD k).toNat := by
  rw [← Finset.sum_Ico_add' (fun u => ((run resetPc x u).hpmEventQ.getLsbD k).toNat) r f 1]
  rfl

/-- The window of retirements is one instruction later: the write that releases is
not counted, the write that freezes is. -/
theorem Window.retires_shift (w : Window resetPc x r f g) :
    (∑ u ∈ Finset.Ico (r+1) (f+1), (retires (run resetPc x u)).toNat) =
      ∑ u ∈ Finset.Ico r f, (exDone (run resetPc x u)).toNat := by
  have hrf := w.order.1
  have hr := (setsInhibit_done (run_decoded resetPc x r) w.release).1
  have hf := (setsInhibit_done (run_decoded resetPc x f) w.freeze).1
  have hret : ∀ u ∈ Finset.Ico (r+1) (f+1), (retires (run resetPc x u)).toNat =
      (exDone (run resetPc x u)).toNat := by
    intro u hu
    rw [Finset.mem_Ico] at hu
    simp [retires,w.noTrap u (by omega) (by omega)]
  rw [Finset.sum_congr rfl hret,Finset.sum_Ico_succ_top (by omega),
    Finset.sum_eq_sum_Ico_succ_bot hrf,hr,hf]
  omega

instance (s : State) (i : In) : Decidable (RedirectingLoadUse s i) :=
  decidable_of_iff (s.ifIdQ.valid = true ∧ s.idExQ.valid = true ∧
    loadUse s.idExQ.insn (ifId s i).insn = true ∧ (s.idExQ.predTaken = true ∨
      (exRs1Fwd s+s.idExQ.imm).toNat % accessBytes (funct3 s.idExQ.insn) ≠ 0))
    ⟨fun ⟨h1,h2,h3,h4⟩ => ⟨h1,h2,h3,h4⟩,fun ⟨h1,h2,h3,h4⟩ => ⟨h1,h2,h3,h4⟩⟩

/-- One cycle of the balance; what a redirecting load-use cycle is charged too much
stands on the left. -/
theorem cost_balance (t : Nat) :
    cost (run resetPc x t) (x t)+(if RedirectingLoadUse (run resetPc x t) (x t) then 1 else 0) =
      (exDone (run resetPc x t)).toNat+(evLoaduse (run resetPc x t) (x t)).toNat+
        (exStall (run resetPc x t)).toNat+2*(exRedirect (run resetPc x t)).toNat := by
  have hd := run_decoded resetPc x t
  simp only [redirectingLoadUse_iff (x t) hd]
  cases hl : idStall (run resetPc x t) (x t) with
  | false => simp [cost,evLoaduse,hl]
  | true =>
    have hs := stalls_disjoint (x t) hd hl
    cases hr : exRedirect (run resetPc x t) <;> simp [cost,evLoaduse,hl,hs,hr]

theorem Window.balance (w : Window resetPc x r f g) :
    (f-r)+#{u ∈ Finset.Ico r f | RedirectingLoadUse (run resetPc x u) (x u)} =
      (∑ u ∈ Finset.Ico r f, (exDone (run resetPc x u)).toNat)+
      (∑ u ∈ Finset.Ico r f, (evLoaduse (run resetPc x u) (x u)).toNat)+
      (∑ u ∈ Finset.Ico r f, (exStall (run resetPc x u)).toNat)+
      2*∑ u ∈ Finset.Ico r f, (exRedirect (run resetPc x u)).toNat := by
  have hslack : ∀ {u}, exDone (run resetPc x u) = true → slack (run resetPc x u) = 0 := by
    intro u h
    simp [slack,(exDone_valid h).1]
  have hr := hslack (setsInhibit_done (run_decoded resetPc x r) w.release).1
  have hf := hslack (setsInhibit_done (run_decoded resetPc x f) w.freeze).1
  have hledger := Clocked.ledger (fun t => cost (run resetPc x t) (x t))
    (fun t => slack (run resetPc x t))
    (fun t => slack_next (x t) (run_flow resetPc x t) (run_decoded resetPc x t))
    (Nat.le_of_lt w.order.1)
  simp only [hr,hf,Nat.add_zero] at hledger
  rw [hledger,Finset.card_filter,← Finset.sum_add_distrib,
    Finset.sum_congr rfl (fun u _ => cost_balance u)]
  simp only [Finset.sum_add_distrib,← Finset.mul_sum]

theorem natCast_eq_zero (n : Nat) : (n : BitVec 64) = 0 ↔ 2^64 ∣ n := by
  rw [BitVec.natCast_eq_ofNat,Nat.dvd_iff_mod_eq_zero]
  constructor
  · intro h
    simpa using congrArg BitVec.toNat h
  · intro h
    exact BitVec.eq_of_toNat_eq (by simpa using h)

/-- The identity closes over a window exactly if the redirecting load-use cycles in
it cancel modulo `2^64`. -/
theorem closes_iff (w : Window resetPc x r f g) : Closes resetPc x r g ↔
    2^64 ∣ #{u ∈ Finset.Ico r f | RedirectingLoadUse (run resetPc x u) (x u)} := by
  have hs := w.sameValues_release
  have he := (w.frozen g w.order.2 (Nat.le_refl g)).2
  have hcyc := w.total (fun c => c.mcycleQ) (fun _ => 1) hs.mcycle he.mcycle
    (fun u h1 h2 => by rw [(w.ticks u h1 h2).mcycle]; rfl)
  have hret := w.total (fun c => c.minstretQ) _ hs.minstret he.minstret
    (fun u h1 h2 => (w.ticks u h1 h2).minstret)
  have hhpm := fun (k : Fin 6) (hk : k.val < 3) => w.total (fun c => c.mhpmcounterQ k) _
    (hs.hpm k hk) (he.hpm k hk) (fun u h1 h2 => (w.ticks u h1 h2).hpm k hk)
  have h0 := hhpm 0 (by decide)
  have h1 := hhpm 1 (by decide)
  have h2 := hhpm 2 (by decide)
  simp only [Fin.val_zero,Fin.val_one,Fin.val_two,events_shift,(hpmEventC_bits _ _).1,
    (hpmEventC_bits _ _).2.1,(hpmEventC_bits _ _).2.2.1] at h0 h1 h2
  have hbal := congrArg (fun n : Nat => (n : BitVec 64)) w.balance
  rw [w.retires_shift] at hret
  rw [← Finset.card_eq_sum_ones,Nat.card_Ico,Nat.add_sub_add_right] at hcyc
  simp only [Nat.cast_add,Nat.cast_mul,Nat.cast_ofNat] at hbal
  simp only [Closes,hcyc,hret,h0,h1,h2]
  rw [← hbal,left_eq_add,natCast_eq_zero]

end window

/-- The words fetched, cycle by cycle, and one prediction of the next word as a taken
target, for the word fetched in cycle `p`. -/
def fetches (l : List Word) (p : Option Nat) (t : Nat) : In where
  imemRdata := l.getD t 0
  dmemRdata := 0
  stubBit := false
  pred := if p = some t then {taken := true, target := 0x80000004+BitVec.ofNat 32 (4*t)} else {}

/-- `addi x1,x0,-1`, `csrw mcountinhibit,x1`, `csrwi mhpmevent3,1`,
`csrwi mhpmevent4,2`, `csrwi mhpmevent5,3`, `csrw mcountinhibit,x0`, `lw x5,0(x0)`,
`add x6,x5,x5`, `csrw mcountinhibit,x1`. -/
def countedLoad : List Word :=
  [0xFFF00093,0x32009073,0x3230D073,0x32415073,0x3251D073,0x32001073,0x00002283,0x00528333,
    0x32009073]

/-- Straight through: the addition waits a cycle for the load. -/
def plainLoad : Nat → In := fetches (0 :: countedLoad ++ [0x32009073]) none

/-- The load was taken for a transfer, so the addition is fetched again. -/
def predictedLoad : Nat → In := fetches (0 :: countedLoad ++ [0x00528333,0x32009073]) (some 6)

theorem window_plainLoad : Window 0x80000000 plainLoad 7 11 12 where
  order := by decide
  programmed := ⟨by decide,by decide,by decide,by decide,by decide,by decide⟩
  release := ⟨by decide,by decide,by decide,by decide⟩
  freeze := ⟨by decide,by decide,by decide,by decide⟩
  quiet u h1 h2 := by interval_cases u <;> decide
  after u h1 h2 := by omega

theorem window_predictedLoad : Window 0x80000000 predictedLoad 7 12 13 where
  order := by decide
  programmed := ⟨by decide,by decide,by decide,by decide,by decide,by decide⟩
  release := ⟨by decide,by decide,by decide,by decide⟩
  freeze := ⟨by decide,by decide,by decide,by decide⟩
  quiet u h1 h2 := by interval_cases u <;> decide
  after u h1 h2 := by omega

theorem closes_plainLoad : Closes 0x80000000 plainLoad 7 12 :=
  (closes_iff window_plainLoad).mpr (by decide +kernel)

theorem closes_predictedLoad : Window 0x80000000 predictedLoad 7 12 13 ∧
    ¬Closes 0x80000000 predictedLoad 7 13 :=
  ⟨window_predictedLoad,by unfold Closes; decide⟩

end Rvntt.Core
