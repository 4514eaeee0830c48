import Rvntt.Ram
import Rvntt.Counters
set_option autoImplicit false

/-!
A machine that executes one instruction at a time by the rules of EX. What an
instruction may read that its program does not determine, the cycle counts and the
noise, is an input of the step.
-/

namespace Rvntt.Seq

open Ram (wordAddr store)

structure Store where
  addr : Word
  be : BitVec 4
  data : Word
  deriving DecidableEq, Repr

structure State (aw : Nat) where
  pc : Word
  regs : BitVec 5 → Word
  csr : Csr.Arch
  mem : BitVec aw → Word
  /-- What has retired and what has been stored, oldest first. -/
  retired : List Core.Commit
  stored : List Store

structure Env where
  mcycleQ : BitVec 64
  mhpmcounterQ : Fin 6 → BitVec 64
  seedRdata : Word

variable {aw : Nat}

def fetch (base : Word) (s : State aw) : Word := s.mem (wordAddr base s.pc)

def decoded (pc insn : Word) : IdEx where
  valid := true
  pc := pc
  insn := insn
  ctrl := decode insn
  imm := immgen insn (decode insn).immFmt
  rs1Addr := rs1Field insn
  rs2Addr := rs2Field insn
  rdAddr := rdField insn

def exec (base : Word) (s : State aw) (e : Env) : Ex where
  q := decoded s.pc (fetch base s)
  rs1Fwd := s.regs (rs1Field (fetch base s))
  rs2Fwd := s.regs (rs2Field (fetch base s))
  csr := {toArch := s.csr, mcycleQ := e.mcycleQ, mhpmcounterQ := e.mhpmcounterQ}
  seedRdata := e.seedRdata

def value (base : Word) (s : State aw) (x : Ex) : Word :=
  (x.latch (Muldiv.compute x.q.ctrl.muldivOp x.rs1Fwd x.rs2Fwd)).result
    (s.mem (wordAddr base x.memAddr))

def writes (x : Ex) : Bool := !x.trap && x.q.ctrl.regWrite && x.q.rdAddr != 0

def retire (base : Word) (s : State aw) (x : Ex) : Option Core.Commit :=
  if x.trap then none
  else some ⟨x.q.pc,x.q.insn,if writes x then some (x.q.rdAddr,value base s x) else none⟩

def issue (x : Ex) : Option Store :=
  if x.dmemBe = 0 then none else some ⟨x.memAddr,x.dmemBe,x.dmemWdata⟩

def step (base : Word) (s : State aw) (e : Env) : State aw :=
  let x := exec base s e
  { pc := x.redirectTarget
    regs := if writes x then Function.update s.regs x.q.rdAddr (value base s x) else s.regs
    csr := (Csr.next x.csr (x.csrIn (!x.trap) 0)).toArch
    mem := store s.mem (wordAddr base x.memAddr) x.dmemWdata x.dmemBe
    retired := s.retired ++ (retire base s x).toList
    stored := s.stored ++ (issue x).toList }

def run (base : Word) (s : State aw) (es : List Env) : State aw := es.foldl (step base) s

def init (resetPc : Word) (mem : BitVec aw → Word) : State aw where
  pc := resetPc
  regs := fun _ => 0
  csr := {}
  mem := mem
  retired := []
  stored := []

theorem run_concat (base : Word) (s : State aw) (es : List Env) (e : Env) :
    run base s (es ++ [e]) = step base (run base s es) e := by
  simp [run]

/-- A trapping instruction retires nothing and writes no register and no memory. -/
theorem step_trap (base : Word) (s : State aw) (e : Env) (h : (exec base s e).trap = true) :
    (step base s e).regs = s.regs ∧ (step base s e).mem = s.mem ∧
      (step base s e).retired = s.retired ∧ (step base s e).stored = s.stored := by
  have hbe : (exec base s e).dmemBe = 0 := by simp [Ex.dmemBe,Ex.storing,h]
  refine ⟨?_,?_,?_,?_⟩
  · simp [step,writes,h]
  · simp only [step,hbe,Ram.store_none]
  · simp [step,retire,h]
  · simp [step,issue,hbe]

end Rvntt.Seq

/-! ### Two views of one instruction -/

namespace Rvntt

/-- The same instruction with the same operands, as far as EX looks at them. -/
structure Ex.Agree (x y : Ex) : Prop where
  valid : x.q.valid = y.q.valid
  pc : x.q.pc = y.q.pc
  insn : x.q.insn = y.q.insn
  ctrl : x.q.ctrl = y.q.ctrl
  imm : x.q.imm = y.q.imm
  rs1Addr : x.q.rs1Addr = y.q.rs1Addr
  rdAddr : x.q.rdAddr = y.q.rdAddr
  csr : x.csr.toArch = y.csr.toArch
  mcycle : x.csr.mcycleQ = y.csr.mcycleQ
  hpm : x.csr.mhpmcounterQ = y.csr.mhpmcounterQ
  seed : x.seedRdata = y.seedRdata
  rs1 : y.q.ctrl.needs1 = true → x.rs1Fwd = y.rs1Fwd
  rs2 : y.q.ctrl.needs2 = true → x.rs2Fwd = y.rs2Fwd
  reads : Reads y.q.insn y.q.ctrl

theorem Csr.rdata_congr {s t : Csr.State} (h : s.toArch = t.toArch)
    (hc : s.mcycleQ = t.mcycleQ) (hh : s.mhpmcounterQ = t.mhpmcounterQ) (d : Word) (a : Addr) :
    rdata s d a = rdata t d a := by
  obtain ⟨sa,sm,sc,sw⟩ := s
  obtain ⟨ta,tm,tc,tw⟩ := t
  obtain rfl : sa = ta := h
  obtain rfl : sm = tm := hc
  obtain rfl : sc = tc := hh
  rfl

namespace Ex.Agree

variable {x y : Ex}

theorem memAddr (h : Agree x y) (hn : y.q.ctrl.needs1 = true) : x.memAddr = y.memAddr := by
  rw [Ex.memAddr,Ex.memAddr,h.rs1 hn,h.imm]

theorem pcPlus4 (h : Agree x y) : x.pcPlus4 = y.pcPlus4 := by rw [Ex.pcPlus4,h.pc]; rfl

theorem jumpTarget (h : Agree x y) : x.jumpTarget = y.jumpTarget := by
  rw [Ex.jumpTarget,Ex.jumpTarget,h.ctrl]
  split
  · rename_i hj
    rw [h.memAddr (h.reads.jalr hj)]
  · rw [Ex.pcTarget,Ex.pcTarget,h.pc,h.imm]

theorem ctrlXfer (h : Agree x y) : x.ctrlXfer = y.ctrlXfer := by
  rw [Ex.ctrlXfer,Ex.ctrlXfer,h.valid,h.ctrl]
  cases hb : y.q.ctrl.branch with
  | false => simp
  | true =>
    obtain ⟨h1,h2⟩ := h.reads.branch hb
    rw [Ex.takesBranch,Ex.takesBranch,h.insn,h.rs1 h1,h.rs2 h2]

theorem csrAddr (h : Agree x y) : x.csrAddr = y.csrAddr := by rw [Ex.csrAddr,h.insn]; rfl

theorem csrWen (h : Agree x y) : x.csrWen = y.csrWen := by
  simp only [Ex.csrWen,Ex.csrOp,Ex.csrSrcNz,Ex.csrImm,h.valid,h.ctrl,h.insn,h.imm,h.rs1Addr]
  rfl

theorem csrRdata (h : Agree x y) : x.csrRdata = y.csrRdata := by
  rw [Ex.csrRdata,Ex.csrRdata,h.csrAddr,h.seed,Csr.rdata_congr h.csr h.mcycle h.hpm]

theorem csrWdata (h : Agree x y) (hc : y.q.ctrl.isCsr = true) : x.csrWdata = y.csrWdata := by
  have hs : x.csrSrc = y.csrSrc := by
    rw [Ex.csrSrc,Ex.csrSrc,Ex.csrImm,Ex.csrImm,h.insn,h.imm]
    split
    · rfl
    · rename_i hi
      exact h.rs1 (h.reads.csr hc (by simpa using hi))
  rw [Ex.csrWdata,Ex.csrWdata,Ex.csrOp,Ex.csrOp,h.insn,h.csrRdata,hs]

theorem addrMisaligned (h : Agree x y) (hn : y.q.ctrl.needs1 = true) :
    x.addrMisaligned = y.addrMisaligned := by
  rw [Ex.addrMisaligned,Ex.addrMisaligned,h.ctrl,h.memAddr hn]

theorem trapInfo (h : Agree x y) : x.trapInfo = y.trapInfo := by
  have hi : x.csrIllegal = y.csrIllegal := by
    rw [Ex.csrIllegal,Ex.csrIllegal,h.csrAddr,h.csrWen]
  have ht : x.targetMisaligned = y.targetMisaligned := by
    rw [Ex.targetMisaligned,Ex.targetMisaligned,h.ctrlXfer,h.jumpTarget]
  have hl : (if y.q.ctrl.memRead && x.addrMisaligned then some ((4 : BitVec 5),x.memAddr)
      else if y.q.ctrl.memWrite && x.addrMisaligned then some (6,x.memAddr) else none) =
      if y.q.ctrl.memRead && y.addrMisaligned then some ((4 : BitVec 5),y.memAddr)
      else if y.q.ctrl.memWrite && y.addrMisaligned then some (6,y.memAddr) else none := by
    cases hr : y.q.ctrl.memRead with
    | true =>
      have hn := h.reads.load hr
      rw [h.addrMisaligned hn,h.memAddr hn]
    | false =>
      cases hw : y.q.ctrl.memWrite with
      | true =>
        have hn := (h.reads.store hw).1
        rw [h.addrMisaligned hn,h.memAddr hn]
      | false => rfl
  rw [Ex.trapInfo,Ex.trapInfo,h.valid,h.ctrl,h.insn,h.pc,hi,ht,h.jumpTarget,hl]

theorem trap (h : Agree x y) : x.trap = y.trap := by rw [Ex.trap,Ex.trap,h.trapInfo]

theorem mret (h : Agree x y) : x.mret = y.mret := by rw [Ex.mret,Ex.mret,h.valid,h.ctrl]

theorem redirectTarget (h : Agree x y) : x.redirectTarget = y.redirectTarget := by
  rw [Ex.redirectTarget,Ex.redirectTarget,h.trap,h.mret,h.ctrlXfer,h.jumpTarget,h.pcPlus4,h.csr]

theorem storing (h : Agree x y) : x.storing = y.storing := by
  rw [Ex.storing,Ex.storing,h.valid,h.ctrl,h.trap]

theorem dmemBe (h : Agree x y) : x.dmemBe = y.dmemBe := by
  rw [Ex.dmemBe,Ex.dmemBe,h.storing,h.ctrl]
  cases hs : y.storing with
  | false => rfl
  | true =>
    have hw : y.q.ctrl.memWrite = true := by
      simp only [Ex.storing,Bool.and_eq_true] at hs
      exact hs.1.2
    rw [h.memAddr (h.reads.store hw).1]

theorem store (h : Agree x y) (hb : y.dmemBe ≠ 0) :
    x.memAddr = y.memAddr ∧ x.dmemWdata = y.dmemWdata := by
  have hs : y.storing = true := by
    by_contra hn
    exact hb (by simp [Ex.dmemBe,hn])
  have hw : y.q.ctrl.memWrite = true := by
    simp only [Ex.storing,Bool.and_eq_true] at hs
    exact hs.1.2
  obtain ⟨h1,h2⟩ := h.reads.store hw
  refine ⟨h.memAddr h1,?_⟩
  rw [Ex.dmemWdata,Ex.dmemWdata,h.storing,h.ctrl,h.rs2 h2]

theorem sameRequest (h : Agree x y) (b : Bool) (e e' : BitVec 6) :
    Csr.SameRequest (x.csrIn b e) (y.csrIn b e') where
  addr := h.csrAddr
  wen := h.csrWen
  wdata hw := by
    have hc : x.csrWen = true := hw
    rw [h.csrWen] at hc
    simp only [Ex.csrWen,Bool.and_eq_true] at hc
    exact h.csrWdata hc.1.2
  bump := rfl
  trapEn := h.trap
  trapPc := h.pc
  trapCause := by change x.trapCause = y.trapCause; rw [Ex.trapCause,Ex.trapCause,h.trapInfo]
  trapVal := by change x.trapVal = y.trapVal; rw [Ex.trapVal,Ex.trapVal,h.trapInfo]
  mretEn := h.mret

theorem aluA (h : Agree x y) (hn : y.q.ctrl.aluSrcA = .rs1 → y.q.ctrl.needs1 = true) :
    x.aluA = y.aluA := by
  rw [Ex.aluA,Ex.aluA,h.ctrl,h.pc]
  cases hs : y.q.ctrl.aluSrcA with
  | rs1 => exact h.rs1 (hn hs)
  | pc => rfl
  | zero => rfl

theorem aluB (h : Agree x y) (hn : y.q.ctrl.aluSrcB = .rs2 → y.q.ctrl.needs2 = true) :
    x.aluB = y.aluB := by
  rw [Ex.aluB,Ex.aluB,h.ctrl,h.imm]
  cases hs : y.q.ctrl.aluSrcB with
  | rs2 => exact h.rs2 (hn hs)
  | imm => rfl

theorem result (h : Agree x y) (hw : y.q.ctrl.regWrite = true)
    (hp : y.q.ctrl.resultSel ≠ .pc4) {md md' : Word}
    (hmd : y.q.ctrl.isMuldiv = true → md = md') : x.result md = y.result md' := by
  rw [Ex.result,Ex.result,h.ctrl]
  cases hm : y.q.ctrl.isMuldiv with
  | true => exact hmd hm
  | false =>
    cases hc : y.q.ctrl.isCsr with
    | true => simp only [h.reads.csrPlain hc,Bool.false_eq_true,if_false,if_true,h.csrRdata]
    | false =>
      have hB : x.aluB = y.aluB := h.aluB (h.reads.aluB hw hm hc hp)
      by_cases ho : y.q.ctrl.aluOp = .passB
      · have hbm : y.q.ctrl.isBitmanip = false := by
          by_contra hbm
          rw [h.reads.bmAdd (by simpa using hbm)] at ho
          cases ho
        simp only [hbm,Bool.false_eq_true,if_false,Ex.aluY,h.ctrl,ho,alu,hB]
      · have hA : x.aluA = y.aluA := h.aluA (h.reads.aluA hw hm hc hp ho)
        simp only [Bool.false_eq_true,if_false,Ex.aluY,Ex.bmResult,h.ctrl,hA,hB]

theorem latchResult (h : Agree x y) (hw : y.q.ctrl.regWrite = true) {md md' d d' : Word}
    (hmd : y.q.ctrl.isMuldiv = true → md = md')
    (hd : y.q.ctrl.resultSel = .mem → d = d') :
    (x.latch md).result d = (y.latch md').result d' := by
  have hx : (x.latch md).resultSel = y.q.ctrl.resultSel := congrArg Ctrl.resultSel h.ctrl
  have hy : (y.latch md').resultSel = y.q.ctrl.resultSel := rfl
  rw [ExMem.result,ExMem.result,hx,hy]
  cases hs : y.q.ctrl.resultSel with
  | pc4 => exact h.pcPlus4
  | alu => exact h.result hw (by rw [hs]; decide) hmd
  | csr => exact h.result hw (by rw [hs]; decide) hmd
  | mem =>
    have hr : (x.latch md).exResult = (y.latch md').exResult :=
      h.result hw (by rw [hs]; decide) hmd
    have ho : (x.latch md).memOp = (y.latch md').memOp := congrArg Ctrl.memOp h.ctrl
    simp only [ExMem.loadData,ExMem.byteOff,hr,ho,hd hs]
    rfl

end Ex.Agree

end Rvntt
