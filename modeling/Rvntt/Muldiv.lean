import Mathlib.Logic.Function.Iterate
import Rvntt.Pkg
set_option autoImplicit false

/-!
`rvntt_muldiv`: the sequencer, the multiplier operand registers and the radix-2
restoring divider. The operands are captured on the start cycle, so an operation
is described by the three values present then (`load`) and by the number of
cycles since (`advance`).
-/

namespace Rvntt.Muldiv

structure State where
  activeQ : Bool := false
  cntQ : BitVec 6 := 0
  isDivQ : Bool := false
  mAQ : BitVec 33 := 0
  mBQ : BitVec 33 := 0
  mHiQ : Bool := false
  divisorQ : Word := 0
  remQ : Word := 0
  quoQ : Word := 0
  dividendQ : Word := 0
  negQuoQ : Bool := false
  negRemQ : Bool := false
  divByZeroQ : Bool := false
  wantRemQ : Bool := false
  deriving DecidableEq, Repr

structure In where
  req : Bool
  op : BitVec 3
  a : Word
  b : Word

def start (s : State) (i : In) : Bool := i.req && !s.activeQ

def target (s : State) : BitVec 6 :=
  if s.isDivQ then BitVec.ofNat 6 (muldivDivCycles-1) else BitVec.ofNat 6 (muldivMulCycles-1)

/-- The last EX cycle; `req` is in the term so an abort at the finish line is quiet. -/
def done (s : State) (i : In) : Bool := i.req && s.activeQ && s.cntQ == target s

def opIsDiv (op : BitVec 3) : Bool := op.getLsbD 2

/-! Multiplier operands: extended to 33 bits by the sign, or by zero. -/

def aIsSigned (op : BitVec 3) : Bool := op.extractLsb' 0 2 != 0b11
def bIsSigned (op : BitVec 3) : Bool := !op.getLsbD 1
def aExt (op : BitVec 3) (a : Word) : BitVec 33 := BitVec.cons (aIsSigned op && a.msb) a
def bExt (op : BitVec 3) (b : Word) : BitVec 33 := BitVec.cons (bIsSigned op && b.msb) b

/-! Divider operands: magnitudes, with the signs kept aside. -/

def dIsSigned (op : BitVec 3) : Bool := !op.getLsbD 0
def aNeg (op : BitVec 3) (a : Word) : Bool := dIsSigned op && a.msb
def bNeg (op : BitVec 3) (b : Word) : Bool := dIsSigned op && b.msb
def negateIf (neg : Bool) (x : Word) : Word := if neg then ~~~x + 1 else x
def aMag (op : BitVec 3) (a : Word) : Word := negateIf (aNeg op a) a
def bMag (op : BitVec 3) (b : Word) : Word := negateIf (bNeg op b) b

/-! One restoring step; `shifted` needs the 33rd bit. -/

def shifted (s : State) : BitVec 33 := s.remQ ++ BitVec.ofBool s.quoQ.msb
def diff (s : State) : BitVec 33 := shifted s - s.divisorQ.setWidth 33
def fits (s : State) : Bool := !(diff s).msb
def iterate (s : State) : Bool := s.activeQ && s.isDivQ && s.cntQ.ule 32

def next (s : State) (i : In) : State where
  activeQ :=
    if !i.req then false else if start s i then true else if done s i then false else s.activeQ
  cntQ :=
    if !i.req then s.cntQ else if start s i then 1 else if done s i then s.cntQ else s.cntQ+1
  isDivQ := if start s i then opIsDiv i.op else s.isDivQ
  mAQ := if start s i then aExt i.op i.a else s.mAQ
  mBQ := if start s i then bExt i.op i.b else s.mBQ
  mHiQ := if start s i then i.op.extractLsb' 0 2 != 0b00 else s.mHiQ
  divisorQ := if start s i then bMag i.op i.b else s.divisorQ
  remQ :=
    if start s i then 0
    else if iterate s then (if fits s then diff s else shifted s).setWidth 32 else s.remQ
  quoQ :=
    if start s i then aMag i.op i.a
    else if iterate s then s.quoQ.extractLsb' 0 31 ++ BitVec.ofBool (fits s) else s.quoQ
  dividendQ := if start s i then i.a else s.dividendQ
  negQuoQ := if start s i then aNeg i.op i.a ^^ bNeg i.op i.b else s.negQuoQ
  negRemQ := if start s i then aNeg i.op i.a else s.negRemQ
  divByZeroQ := if start s i then i.b == 0 else s.divByZeroQ
  wantRemQ := if start s i then i.op.getLsbD 1 else s.wantRemQ

def mFull (s : State) : BitVec 64 := (s.mAQ.signExtend 66 * s.mBQ.signExtend 66).setWidth 64

def divResult (s : State) : Word :=
  if s.divByZeroQ then (if s.wantRemQ then s.dividendQ else 0xFFFFFFFF)
  else if s.wantRemQ then negateIf s.negRemQ s.remQ else negateIf s.negQuoQ s.quoQ

def result (s : State) : Word :=
  if s.isDivQ then divResult s
  else if s.mHiQ then (mFull s).extractLsb' 32 32 else (mFull s).extractLsb' 0 32

/-! ### One operation -/

def load (op : BitVec 3) (a b : Word) : State where
  activeQ := true
  cntQ := 1
  isDivQ := opIsDiv op
  mAQ := aExt op a
  mBQ := bExt op b
  mHiQ := op.extractLsb' 0 2 != 0b00
  divisorQ := bMag op b
  remQ := 0
  quoQ := aMag op a
  dividendQ := a
  negQuoQ := aNeg op a ^^ bNeg op b
  negRemQ := aNeg op a
  divByZeroQ := b == 0
  wantRemQ := op.getLsbD 1

def advance (s : State) : State :=
  {s with
    cntQ := s.cntQ+1
    remQ := if iterate s then (if fits s then diff s else shifted s).setWidth 32 else s.remQ
    quoQ := if iterate s then s.quoQ.extractLsb' 0 31 ++ BitVec.ofBool (fits s) else s.quoQ}

def latency (op : BitVec 3) : Nat :=
  if opIsDiv op then muldivDivCycles-1 else muldivMulCycles-1

def after (op : BitVec 3) (a b : Word) (k : Nat) : State := advance^[k] (load op a b)

def compute (op : BitVec 3) (a b : Word) : Word := result (after op a b (latency op-1))

theorem next_start {s : State} {i : In} (hr : i.req = true) (ha : s.activeQ = false) :
    next s i = load i.op i.a i.b := by
  simp [next,load,start,hr,ha]

theorem next_advance {s : State} {i : In} (hr : i.req = true) (ha : s.activeQ = true)
    (hd : done s i = false) : next s i = advance s := by
  simp [next,advance,start,hr,ha,hd]

theorem next_done {s : State} {i : In} (hd : done s i = true) :
    (next s i).activeQ = false := by
  have hr : i.req = true := by simp [done] at hd; exact hd.1.1
  have ha : s.activeQ = true := by simp [done] at hd; exact hd.1.2
  simp [next,start,hr,ha,hd]

theorem next_idle {s : State} {i : In} (hr : i.req = false) : (next s i).activeQ = false := by
  simp [next,hr]

theorem after_succ (op : BitVec 3) (a b : Word) (k : Nat) :
    after op a b (k+1) = advance (after op a b k) :=
  Function.iterate_succ_apply' _ _ _

@[simp] theorem after_activeQ (op : BitVec 3) (a b : Word) (k : Nat) :
    (after op a b k).activeQ = true := by
  induction k with
  | zero => rfl
  | succ k ih => rw [after_succ]; exact ih

@[simp] theorem after_isDivQ (op : BitVec 3) (a b : Word) (k : Nat) :
    (after op a b k).isDivQ = opIsDiv op := by
  induction k with
  | zero => rfl
  | succ k ih => rw [after_succ]; exact ih

theorem after_cntQ (op : BitVec 3) (a b : Word) (k : Nat) :
    (after op a b k).cntQ = BitVec.ofNat 6 (k+1) := by
  induction k with
  | zero => rfl
  | succ k ih =>
    rw [after_succ]
    simp only [advance,ih]
    exact (BitVec.ofNat_add (k+1) 1).symm

theorem latency_bounds (op : BitVec 3) : 1 ≤ latency op ∧ latency op ≤ 33 := by
  unfold latency muldivDivCycles muldivMulCycles
  split <;> omega

theorem target_after (op : BitVec 3) (a b : Word) (k : Nat) :
    target (after op a b k) = BitVec.ofNat 6 (latency op) := by
  simp only [target,after_isDivQ,latency]
  split <;> rfl

theorem done_after (op : BitVec 3) (a b : Word) {k : Nat} (hk : k+1 ≤ latency op) {i : In}
    (hr : i.req = true) : done (after op a b k) i = decide (k+1 = latency op) := by
  have hb := latency_bounds op
  have hc : (BitVec.ofNat 6 (k+1) == BitVec.ofNat 6 (latency op)) = decide (k+1 = latency op) := by
    rw [Bool.eq_iff_iff,beq_iff_eq,decide_eq_true_iff]
    constructor
    · intro h
      have hh := congrArg BitVec.toNat h
      simp only [BitVec.toNat_ofNat] at hh
      omega
    · intro h; rw [h]
  simp [done,hr,after_cntQ,target_after,hc]

end Rvntt.Muldiv
