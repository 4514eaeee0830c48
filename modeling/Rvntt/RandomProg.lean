import Mathlib.Tactic.ByContra
set_option autoImplicit false

/-!
The random program generator of `gen_random_prog.py`. What it draws comes off a tape, and
the lines it emits are kept apart instead of joined to one text.
-/

namespace Rvntt

namespace RandomProg

abbrev Reg := Fin 32

/-! ### Instructions -/

inductive RrOp where
  | add | sub | sll | slt | sltu | xor | srl | sra | or | and
  | mul | mulh | mulhsu | mulhu | div | divu | rem | remu
  | sh1add | sh2add | sh3add | andn | orn | xnor | min | minu | max | maxu | rol | ror
  | bset | bclr | binv | bext | pack | packh | czeroEqz | czeroNez
  deriving DecidableEq, Repr

inductive RiOp where
  | addi | slti | sltiu | xori | ori | andi | slli | srli | srai
  | rori | bseti | bclri | binvi | bexti
  deriving DecidableEq, Repr

inductive UnOp where
  | clz | ctz | cpop | sextB | sextH | zextH | orcB | rev8 | brev8 | zip | unzip
  deriving DecidableEq, Repr

inductive UpperOp where
  | lui | auipc
  deriving DecidableEq, Repr

inductive LoadOp where
  | lw | lh | lhu | lb | lbu
  deriving DecidableEq, Repr

inductive StoreOp where
  | sw | sh | sb
  deriving DecidableEq, Repr

inductive BranchOp where
  | beq | bne | blt | bge | bltu | bgeu
  deriving DecidableEq, Repr

inductive Symbol where
  | scratch | trapHandler
  deriving DecidableEq, Repr

/-- A line of the program. `label l` is `.Lb{l}:`, and the numeric label that a `pcrelLo`
refers to belongs to the `pcrelHi` of its symbol. -/
inductive Line where
  | label (l : Nat)
  | nop
  | pcrelHi (rd : Reg) (sym : Symbol)
  | pcrelLo (rd rs1 : Reg) (sym : Symbol)
  | rr (op : RrOp) (rd rs1 rs2 : Reg)
  | ri (op : RiOp) (rd rs1 : Reg) (imm : Int)
  | un (op : UnOp) (rd rs1 : Reg)
  | upper (op : UpperOp) (rd : Reg) (imm : Nat)
  | load (op : LoadOp) (rd : Reg) (off : Nat) (base : Reg)
  | store (op : StoreOp) (rs2 : Reg) (off : Nat) (base : Reg)
  | branch (op : BranchOp) (rs1 rs2 : Reg) (l : Nat)
  | jal (rd : Reg) (l : Nat)
  | csrwMtvec (rs1 : Reg)
  | ecall
  deriving DecidableEq, Repr

/-! ### Tables -/

def baseReg : Reg := 8
def defaultPool : List Reg := [5,6,7,9,10,11,12,13,14,15,16,17]

def scratchWords : Nat := 64
def scratchBytes : Nat := scratchWords*4

def rrOps : List RrOp := [.add,.sub,.sll,.slt,.sltu,.xor,.srl,.sra,.or,.and]
def riOps : List RiOp := [.addi,.slti,.sltiu,.xori,.ori,.andi]
def shiftI : List RiOp := [.slli,.srli,.srai]
def loads : List (LoadOp × Nat) := [(.lw,4),(.lh,2),(.lhu,2),(.lb,1),(.lbu,1)]
def stores : List (StoreOp × Nat) := [(.sw,4),(.sh,2),(.sb,1)]
def branches : List BranchOp := [.beq,.bne,.blt,.bge,.bltu,.bgeu]
def muldivOps : List RrOp := [.mul,.mulh,.mulhsu,.mulhu,.div,.divu,.rem,.remu]
def bmRr : List RrOp := [.sh1add,.sh2add,.sh3add,.andn,.orn,.xnor,.min,.minu,.max,.maxu,.rol,.ror,
  .bset,.bclr,.binv,.bext,.pack,.packh,.czeroEqz,.czeroNez]
def bmRi : List RiOp := [.rori,.bseti,.bclri,.binvi,.bexti]
def bmUn : List UnOp := [.clz,.ctz,.cpop,.sextB,.sextH,.zextH,.orcB,.rev8,.brev8,.zip,.unzip]

/-- `op.startswith("czero.")`. -/
def RrOp.isCzero : RrOp → Bool
  | czeroEqz | czeroNez => true
  | _ => false

/-- `op[0] in "dr"`, of the operations in `muldivOps`. -/
def RrOp.isDivRem : RrOp → Bool
  | div | divu | rem | remu => true
  | _ => false

def rawDistance : Nat := 3
def loadUseDistance : Nat := 3

/-! ### State -/

/-- An entry of a dictionary keeps its place when it is overwritten. -/
def dictSet {α : Type} (d : List (Reg × α)) (k : Reg) (v : α) : List (Reg × α) :=
  if d.any fun p => p.1 == k then d.map fun p => if p.1 = k then (k,v) else p else d ++ [(k,v)]

/-- What changes while a program is generated; `drawn` counts the random numbers. -/
structure State where
  out : List Line
  idx : Nat
  lastWrite : List (Reg × Int)
  lastWasLoad : List (Reg × Bool)
  labelN : Nat
  pendingLabels : List (Nat × Nat)
  labelHold : Bool
  drawn : Nat

def State.init : State := ⟨[],0,[],[],0,[],false,0⟩

namespace State

/-- `_emit`: the labels that are due, then the line. -/
def emit (s : State) (text : Line) : State :=
  let due := if s.labelHold then []
    else (s.pendingLabels.filter fun p => p.1 ≤ s.idx).map Prod.snd
  { s with
    out := s.out ++ due.map .label ++ [text]
    pendingLabels := s.pendingLabels.filter fun p => p.2 ∉ due
    idx := s.idx+1 }

def nop (s : State) : State := s.emit .nop

def nops : Nat → State → State
  | 0,s => s
  | n+1,s => nops n s.nop

def wrote (s : State) (rd : Reg) (isLoad : Bool) : State :=
  if rd ≠ 0 then
    { s with
      lastWrite := dictSet s.lastWrite rd (s.idx-1)
      lastWasLoad := dictSet s.lastWasLoad rd isLoad }
  else s

/-- The register with the latest write, the first of them in the dictionary's order. -/
def mostRecentWrite (s : State) : Option Reg :=
  match s.lastWrite with
  | [] => none
  | p::l => some (l.foldl (fun m q => if m.2 < q.2 then q else m) p).1

theorem nop_idx (s : State) : s.nop.idx = s.idx+1 := rfl

theorem nops_lastWrite (n : Nat) (s : State) : (nops n s).lastWrite = s.lastWrite := by
  induction n generalizing s with
  | zero => rfl
  | succ n ih => exact ih s.nop

theorem nops_idx (n : Nat) (s : State) : (nops n s).idx = s.idx+n := by
  induction n generalizing s with
  | zero => rfl
  | succ n ih =>
    rw [nops,ih,nop_idx]
    omega

end State

/-! ### Drawing -/

/-- The random numbers: the `k`th is read as a real one or as one to take a remainder of. -/
structure Tape (F : Type) where
  real : Nat → F
  int : Nat → Nat

structure Gen (F : Type) where
  rng : Tape F
  n : Nat
  pool : List Reg
  rawD : F
  luD : F
  brD : F
  mulD : F
  bmD : F

/-- A step of the generator. An exception leaves no result. -/
abbrev M := StateT State Option

namespace Gen

section

variable {F : Type} (g : Gen F)

def random : M F := fun s => some (g.rng.real s.drawn,{ s with drawn := s.drawn+1 })

/-- `randrange(n)`, and `randrange(0, n)`. -/
def randbelow (n : Nat) : M Nat := fun s =>
  if n = 0 then none else some (g.rng.int s.drawn % n,{ s with drawn := s.drawn+1 })

def randrange (lo hi : Int) : M Int := do
  let k ← g.randbelow (hi-lo).toNat
  return lo+k

/-- An empty sequence is an `IndexError`. -/
def choice {α : Type} (l : List α) : M α := do
  let k ← g.randbelow l.length
  match l[k]? with
  | some x => return x
  | none => failure

def r : M Reg := g.choice g.pool

end

def emit (text : Line) : M Unit := modify fun s => s.emit text
def wrote (rd : Reg) (isLoad : Bool) : M Unit := modify fun s => s.wrote rd isLoad

section

variable {F : Type} [LE F] [DecidableLE F] (g : Gen F)

/-- One pass over the sources: how many NOPs they need, and what has been drawn. -/
def padNeed (s : State) : List Reg → Nat × Nat → Nat × Nat
  | [],a => a
  | r::regs,(need,drawn) =>
    match if r = 0 then none else s.lastWrite.lookup r with
    | none => padNeed s regs (need,drawn)
    | some w =>
      let dist : Int := s.idx-w
      let isLoad := (s.lastWasLoad.lookup r).getD false
      let want := if isLoad then loadUseDistance else rawDistance
      let density := if isLoad then g.luD else g.rawD
      if dist < want then
        if g.rng.real drawn ≥ density then
          padNeed s regs (max need (want-dist).toNat,drawn+1)
        else padNeed s regs (need,drawn+1)
      else padNeed s regs (need,drawn)

/-- How far the latest write to a source is from being safe to read. -/
def slack (s : State) : List Reg → Nat
  | [] => 0
  | r::regs =>
    max (match s.lastWrite.lookup r with
      | none => 0
      | some w => (3-((s.idx : Int)-w)).toNat) (slack s regs)

theorem padNeed_le (s : State) (regs : List Reg) (a : Nat × Nat) :
    (g.padNeed s regs a).1 ≤ max a.1 (slack s regs) := by
  induction regs generalizing a with
  | nil => exact Nat.le_max_left _ _
  | cons r regs ih =>
    obtain ⟨need,drawn⟩ := a
    have hrest : ∀ b : Nat × Nat, b.1 ≤ max need (slack s (r::regs)) →
        (g.padNeed s regs b).1 ≤ max need (slack s (r::regs)) := by
      intro b hb
      have := ih b
      simp only [slack] at hb ⊢
      omega
    rw [padNeed]
    split
    · exact hrest _ (Nat.le_max_left _ _)
    · rename_i w hw
      have hlook : s.lastWrite.lookup r = some w := by
        split at hw
        · cases hw
        · exact hw
      have hwant : ∀ b : Bool, (if b then loadUseDistance else rawDistance) = 3 := by decide
      simp only [hwant]
      generalize (if (s.lastWasLoad.lookup r).getD false then g.luD else g.rawD) = density
      split
      · split
        · refine hrest _ ?_
          simp only [slack,hlook]
          omega
        · exact hrest _ (Nat.le_max_left _ _)
      · exact hrest _ (Nat.le_max_left _ _)

theorem slack_nops (s : State) (n drawn : Nat) (regs : List Reg) :
    slack (State.nops n { s with drawn := drawn }) regs = slack s regs-n := by
  induction regs with
  | nil => rw [slack,slack,Nat.zero_sub]
  | cons r regs ih =>
    rw [slack,slack,ih,State.nops_lastWrite,State.nops_idx]
    cases s.lastWrite.lookup r with
    | none =>
      simp only
      omega
    | some w =>
      simp only
      omega

/-- `_pad_for`: each pass that asks for NOPs brings every source nearer. -/
def padState (s : State) (regs : List Reg) : State :=
  match h : g.padNeed s regs (0,s.drawn) with
  | (0,drawn) => { s with drawn := drawn }
  | (need+1,drawn) => padState (State.nops (need+1) { s with drawn := drawn }) regs
  termination_by slack s regs
  decreasing_by
    have hle := g.padNeed_le s regs (0,s.drawn)
    rw [h,Nat.zero_max] at hle
    rw [slack_nops]
    simp only at hle
    omega

def padFor (regs : List Reg) : M Unit := modify fun s => g.padState s regs

end

end Gen

/-! ### The end of a program -/

def distance (i : Nat) : List (Nat × Nat) → Nat
  | [] => 0
  | p::l => p.1-i+1+distance i l

theorem distance_filter (l : List (Nat × Nat)) (i : Nat) {keep : Nat × Nat → Bool}
    (hk : ∀ p ∈ l, keep p = true → i < p.1) :
    distance (i+1) (l.filter keep)+l.length ≤ distance i l := by
  induction l with
  | nil => exact Nat.le_refl _
  | cons p l ih =>
    have htail := ih fun q hq => hk q (.tail _ hq)
    rw [List.filter_cons,distance,List.length_cons]
    split
    case isTrue h =>
      have hp := hk p (.head _) h
      rw [distance]
      omega
    case isFalse h => omega

theorem distance_nop {s : State} (hp : s.pendingLabels ≠ []) (hh : ¬ s.labelHold = true) :
    distance s.nop.idx s.nop.pendingLabels < distance s.idx s.pendingLabels := by
  have hpos := List.length_pos_iff.mpr hp
  have hle : distance s.nop.idx s.nop.pendingLabels+s.pendingLabels.length ≤
      distance s.idx s.pendingLabels := by
    refine distance_filter s.pendingLabels s.idx fun p hp hkeep => ?_
    rw [if_neg hh,decide_eq_true_eq] at hkeep
    by_contra hle
    refine hkeep (List.mem_map.mpr ⟨p,List.mem_filter.mpr ⟨hp,?_⟩,rfl⟩)
    rw [decide_eq_true_eq]
    omega
  omega

/-- The loop that flushes the outstanding labels; with labels on hold it would not end. -/
def flush (s : State) : Option State :=
  if _hp : s.pendingLabels = [] then some s
  else if _hh : s.labelHold = true then none
  else flush s.nop
  termination_by distance s.idx s.pendingLabels
  decreasing_by exact distance_nop _hp _hh

/-! ### The program -/

namespace Gen

section

variable {F : Type} [Add F] [LT F] [LE F] [OfScientific F] [DecidableLT F] [DecidableLE F]
variable (g : Gen F)

def chance (p : F) : M Bool := do
  let x ← g.random
  return decide (x < p)

def anySrc : M Reg := do
  let x0 ← g.chance 0.05
  if x0 then return 0 else g.choice g.pool

def bitmanipRr (rd rs1 : Reg) : M Unit := do
  let op ← g.choice bmRr
  let rs2 ← g.anySrc
  let zero ← (if op.isCzero then g.chance 0.30 else pure false)
  let rs2 : Reg := if zero then 0 else rs2
  g.padFor [rs1,rs2]
  emit (.rr op rd rs1 rs2)

def bitmanipRi (rd rs1 : Reg) : M Unit := do
  let op ← g.choice bmRi
  let edge ← g.chance 0.30
  let sh ← (if edge then g.choice [0,31] else g.randbelow 32)
  g.padFor [rs1]
  emit (.ri op rd rs1 sh)

def bitmanipUn (rd rs1 : Reg) : M Unit := do
  let op ← g.choice bmUn
  g.padFor [rs1]
  emit (.un op rd rs1)

def bitmanip : M Unit := do
  let kind ← g.randbelow 3
  let rd ← g.r
  let rs1 ← g.anySrc
  (if kind = 0 then g.bitmanipRr rd rs1
    else if kind = 1 then g.bitmanipRi rd rs1
    else g.bitmanipUn rd rs1)
  wrote rd false

def regReg : M Unit := do
  let op ← g.choice rrOps
  let rd ← g.r
  let rs1 ← g.anySrc
  let rs2 ← g.anySrc
  g.padFor [rs1,rs2]
  emit (.rr op rd rs1 rs2)
  wrote rd false

def divisorM1 (rs1 : Reg) : M (Reg × Reg) := do
  let rs2 ← g.r
  emit (.ri .addi rs2 0 (-1))
  wrote rs2 false
  return (rs1,rs2)

def overflowPair : M (Reg × Reg) := do
  let rs1 ← g.r
  let rs2 ← g.choice (g.pool.filter fun r => r ≠ rs1)
  emit (.upper .lui rs1 0x80000)
  wrote rs1 false
  emit (.ri .addi rs2 0 (-1))
  wrote rs2 false
  return (rs1,rs2)

def muldivEdge (rs1 : Reg) : M (Reg × Reg) := do
  let kind ← g.randbelow 3
  if kind = 0 then return (rs1,0)
  else if kind = 1 then g.divisorM1 rs1
  else g.overflowPair

def muldiv : M Unit := do
  let op ← g.choice muldivOps
  let rd ← g.r
  let rs1 ← g.anySrc
  let rs2 ← g.anySrc
  let edge ← (if op.isDivRem then g.chance 0.30 else pure false)
  let rs ← (if edge then g.muldivEdge rs1 else pure (rs1,rs2))
  g.padFor [rs.1,rs.2]
  emit (.rr op rd rs.1 rs.2)
  wrote rd false

def opImm (ops : List RiOp) (lo hi : Int) : M (RiOp × Int) := do
  let op ← g.choice ops
  let imm ← g.randrange lo hi
  return (op,imm)

def regImm : M Unit := do
  let shift ← g.chance 0.3
  let o ← (if shift then g.opImm shiftI 0 32 else g.opImm riOps (-2048) 2048)
  let rd ← g.r
  let rs1 ← g.anySrc
  g.padFor [rs1]
  emit (.ri o.1 rd rs1 o.2)
  wrote rd false

/-- The register of the latest write in bits 7:3, which become the rs1 field. -/
def liveField (imm : Nat) : Option Reg → M Nat
  | none => return imm
  | some live => do
    let b ← g.chance 0.5
    return if b then (imm-(imm &&& (0x1F <<< 3))) ||| (live.val <<< 3) else imm

def upper : M Unit := do
  let rd ← g.r
  let imm ← g.randbelow (1 <<< 20)
  let s ← get
  let imm ← g.liveField imm s.mostRecentWrite
  let lui ← g.chance 0.7
  emit (.upper (if lui then .lui else .auipc) rd imm)
  wrote rd false

/-- The base and offset of an access `total` into scratch. With an alias, labels are on hold
from its `addi` on. -/
def memBase (total : Nat) : M (Reg × Nat) := do
  let aliased ← g.chance 0.25
  if aliased then
    let base ← g.r
    let k ← g.randbelow (total+1)
    emit (.ri .addi base baseReg k)
    wrote base false
    modify fun s => { s with labelHold := true }
    return (base,total-k)
  else return (baseReg,total)

def memLoad : M Unit := do
  let o ← g.choice loads
  let raw ← g.randbelow (scratchBytes-4)
  let b ← g.memBase (raw/o.2*o.2)
  let rd ← g.r
  g.padFor [b.1]
  emit (.load o.1 rd b.2 b.1)
  wrote rd true

def memStore : M Unit := do
  let o ← g.choice stores
  let raw ← g.randbelow (scratchBytes-4)
  let b ← g.memBase (raw/o.2*o.2)
  let rs2 ← g.anySrc
  g.padFor [b.1,rs2]
  emit (.store o.1 rs2 b.2 b.1)

def mem : M Unit := do
  let load ← g.chance 0.5
  (if load then g.memLoad else g.memStore)
  modify fun s => { s with labelHold := false }

def jump (target lbl : Nat) : M Unit := do
  let link ← g.chance 0.7
  let rd ← (if link then g.r else pure 0)
  modify fun s => { s with pendingLabels := s.pendingLabels ++ [(target,lbl)] }
  emit (.jal rd lbl)
  wrote rd false

def condBranch (target lbl : Nat) : M Unit := do
  let op ← g.choice branches
  let rs1 ← g.anySrc
  let same ← g.chance 0.25
  let rs2 ← (if same then pure rs1 else g.anySrc)
  g.padFor [rs1,rs2]
  modify fun s => { s with pendingLabels := s.pendingLabels ++ [(target,lbl)] }
  emit (.branch op rs1 rs2 lbl)

def branch : M Unit := do
  modify fun s => { s with labelN := s.labelN+1 }
  let s ← get
  let ahead ← g.randrange 3 12
  let isJump ← g.chance 0.15
  if isJump then g.jump (s.idx+ahead.toNat) s.labelN
  else g.condBranch (s.idx+ahead.toNat) s.labelN

def instruction : M Unit := do
  let pick ← g.random
  if pick < g.brD then g.branch
  else if pick < g.brD+g.mulD then g.muldiv
  else if pick < g.brD+g.mulD+g.bmD then g.bitmanip
  else
    let base := g.brD+g.mulD+g.bmD
    if pick < base+0.18 then g.mem
    else if pick < base+0.34 then g.upper
    else if pick < base+0.62 then g.regImm
    else g.regReg

def nops (n : Nat) : M Unit := modify (State.nops n)

/-- `Gen.generate`; the first line is appended without `_emit`. -/
def generate : M (List Line) := do
  modify fun s => { s with out := s.out ++ [.pcrelHi baseReg .scratch],idx := s.idx+1 }
  nops rawDistance
  emit (.pcrelLo baseReg baseReg .scratch)
  modify fun s => { s with lastWrite := dictSet s.lastWrite baseReg (s.idx-1) }
  nops rawDistance
  g.pool.forM fun r => do
    let imm ← g.randbelow (1 <<< 20)
    emit (.upper .lui r imm)
    wrote r false
  g.pool.forM fun r => do
    g.padFor [r]
    let imm ← g.randrange (-2048) 2048
    emit (.ri .xori r r imm)
    wrote r false
  (List.range g.n).forM fun _ => g.instruction
  fun s => (flush s).map fun s => ((),s)
  return (← get).out

end

end Gen

def Line.memBase : Line → Option Reg
  | load _ _ _ base | store _ _ _ base => some base
  | _ => none

/-- The nearest line before an aliased access that is no NOP is the `addi` of its base. -/
def aliasOk (before : List Line) (base : Reg) : Bool :=
  match before.reverse.dropWhile fun l => l == .nop with
  | .ri .addi rd rs1 imm::_ => rd == base && rs1 == baseReg && decide (0 ≤ imm)
  | _ => false

def checkAliasBases (lines : List Line) : Bool :=
  (List.range lines.length).all fun i =>
    match lines[i]?.bind Line.memBase with
    | some base => base == baseReg || aliasOk (lines.take i) base
    | none => true

/-- What the epilogue runs. The trap handler and the data come after it. -/
def epilogue : List Line :=
  [.pcrelHi 5 .trapHandler,.nop,.nop,.nop,.pcrelLo 5 5 .trapHandler,.nop,.nop,.nop,
    .csrwMtvec 5,.nop,.nop,.nop,.ecall]

/-- `generate`, up to the `ecall`; no pool is the empty one. -/
def generate {F : Type} [Add F] [LT F] [LE F] [OfScientific F] [DecidableLT F] [DecidableLE F]
    (rng : Tape F) (n : Nat) (pool : List Reg) (rawD luD brD mulD bmD : F) : Option (List Line) := do
  let pool := if pool = [] then defaultPool else pool
  if baseReg ∈ pool then failure
  let (lines,_) ← (Gen.generate ⟨rng,n,pool,rawD,luD,brD,mulD,bmD⟩).run State.init
  if ¬ checkAliasBases lines then failure
  return lines ++ epilogue

end RandomProg

end Rvntt
