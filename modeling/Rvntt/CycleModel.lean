import Rvntt.RefDecode
import Rvntt.RefBpred
set_option autoImplicit false

/-!
`tb/cosim/cycle_model.py`: the span of a run, and the transfers it mispredicts,
computed from the commit stream alone.
-/

namespace Rvntt.Ref

/-- A line of the commit stream, without the writes. -/
structure Record where
  pc : Word
  insn : Word
  deriving DecidableEq, Repr

/-! `MULDIV_CYCLES`. -/

def mulCycles : Int := 2
def divCycles : Int := 34

def muldivCycles (op : BitVec 3) : Int :=
  if [0b000,0b001,0b010,0b011].contains op then mulCycles else divCycles

def isMuldiv (r : Record) : Bool := (decode r.insn).1.isMuldiv

def extra (r : Record) : Int :=
  if isMuldiv r then muldivCycles (decode r.insn).1.muldivOp-1 else 0

def isTransfer (r : Record) : Bool := (decode r.insn).1.branch || (decode r.insn).1.jump

def stallsOn (r nxt : Record) : Bool :=
  let (ctrl,regs) := decode r.insn
  let (nctrl,nregs) := decode nxt.insn
  ctrl.memRead && regs.rd != 0 &&
    ((nctrl.usesRs1 && nregs.rs1 == regs.rd) || (nctrl.usesRs2 && nregs.rs2 == regs.rd))

def flushesOn (r nxt : Record) : Bool := nxt.pc != r.pc+4 || (decode r.insn).1.jump

def pairs (rs : List Record) : List (Record × Record) := rs.zip rs.tail

def stallPcs (rs : List Record) : List Word :=
  ((pairs rs).filter fun p => stallsOn p.1 p.2).map fun p => p.1.pc

def flushPcs (rs : List Record) : List Word :=
  ((pairs rs).filter fun p => flushesOn p.1 p.2).map fun p => p.1.pc

structure Walk where
  bp : DelayedBPred := {}
  cyc : Int := 0
  prevMispredicted : Bool := false
  prevPc : Option Word := none
  prevExtra : Int := 0
  prevHold : Int := 0
  pendingTarget : Option Word := none
  mispredicts : List Word := []

namespace Walk

def advance (stallAt : List Word) (w : Walk) (r : Record) : Walk :=
  let w := match w.prevPc with
    | none => w
    | some prevPc =>
      let stall := if prevPc ∈ stallAt then 1 else 0
      {w with
        cyc := w.cyc+(1+stall+(if w.prevMispredicted then 2 else 0)+extra r)
        prevHold := stall+w.prevExtra}
  {w with prevPc := some r.pc, prevExtra := extra r, prevMispredicted := false}

def pass (w : Walk) (r : Record) : Walk :=
  if some r.pc = w.pendingTarget then {w with pendingTarget := none} else w

def transfer (w : Walk) (r nxt : Record) : Walk :=
  let taken := (decode r.insn).1.jump || nxt.pc != r.pc+4
  let target := if taken then nxt.pc else 0
  let suppressed := suppressAfterRedirect && decide (some r.pc = w.pendingTarget)
  let asked := w.bp.predict r.pc (w.cyc-w.prevHold)
  let p := if suppressed then (false,0) else asked.1
  let wrong := if taken then !(p.1 && p.2 == target) else p.1
  {w with
    bp := asked.2.update (w.cyc-w.prevHold) r.pc r.insn taken target
    mispredicts := if wrong then w.mispredicts ++ [r.pc] else w.mispredicts
    prevMispredicted := wrong
    pendingTarget := if wrong then some (if taken then target else r.pc+4) else none}

def visit (stallAt : List Word) (w : Walk) (r : Record) (nxt : Option Record) : Walk :=
  let w := w.advance stallAt r
  match nxt with
  | none => w.pass r
  | some nxt => if isTransfer r then w.transfer r nxt else w.pass r

end Walk

def walk (stallAt : List Word) : Walk → List Record → Walk
  | w,[] => w
  | w,r :: rs => walk stallAt (w.visit stallAt r rs.head?) rs

structure Analysis where
  retired : Nat
  stalls : Nat
  flushes : Nat
  muldiv : Nat
  muldivCycles : Int
  stallPcs : List Word
  flushPcs : List Word
  predictor : Bool
  mispredicts : Nat
  mispredictPcs : List Word
  span : Int

def analyse (records : List Record) (predictor : Bool) : Analysis :=
  let stalls := stallPcs records
  let flushes := flushPcs records
  let muldivs := records.tail.filter isMuldiv
  let muldivCycles := (muldivs.map extra).sum
  let mispredicts := if predictor then (walk stalls {} records).mispredicts else []
  let controlCycles : Int := 2*(if predictor then mispredicts.length else flushes.length)
  { retired := records.length
    stalls := stalls.length
    flushes := flushes.length
    muldiv := muldivs.length
    muldivCycles := muldivCycles
    stallPcs := stalls
    flushPcs := flushes
    predictor := predictor
    mispredicts := mispredicts.length
    mispredictPcs := mispredicts
    span := (records.length-1)+stalls.length+controlCycles+muldivCycles }

/-! ### One record more -/

theorem pairs_concat (rs : List Record) (q d : Record) :
    pairs (rs ++ [q] ++ [d]) = pairs (rs ++ [q]) ++ [(q,d)] := by
  induction rs with
  | nil => rfl
  | cons r rs ih =>
    cases rs with
    | nil => rfl
    | cons r' rs => exact congrArg ((r,r') :: ·) ih

def walkTo (stallAt : List Word) : Walk → List Record → Record → Walk
  | w,[],_ => w
  | w,r :: rs,nxt => walkTo stallAt (w.visit stallAt r (some (rs.head?.getD nxt))) rs nxt

theorem walk_concat (stallAt : List Word) (w : Walk) (rs : List Record) (d : Record) :
    walk stallAt w (rs ++ [d]) = (walkTo stallAt w rs d).visit stallAt d none := by
  induction rs generalizing w with
  | nil => rfl
  | cons r rs ih =>
    cases rs with
    | nil => rfl
    | cons r' rs => exact ih _

theorem walkTo_concat (stallAt : List Word) (w : Walk) (rs : List Record) (q d : Record) :
    walkTo stallAt w (rs ++ [q]) d = (walkTo stallAt w rs q).visit stallAt q (some d) := by
  induction rs generalizing w with
  | nil => rfl
  | cons r rs ih =>
    cases rs with
    | nil => rfl
    | cons r' rs => exact ih _

end Rvntt.Ref
