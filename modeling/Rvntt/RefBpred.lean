import Rvntt.Trained
set_option autoImplicit false

/-!
`model/bpred.py`, the predictor from its specification, and the same predictor with
its updates landing late.
-/

namespace Rvntt.Ref

inductive Kind where
  | branch | jump | call | ret
  deriving DecidableEq, Repr

def Kind.code : Kind → BitVec 2
  | .branch => bpBranch
  | .jump => bpJump
  | .call => bpCall
  | .ret => bpRet

def rasEntries : Nat := 8
def visibilityGap : Int := 4
def suppressAfterRedirect : Bool := true
def allocCnt : Nat := 2

def btbIndex (pc : Word) : BitVec 8 := pc.extractLsb' 2 8
def btbTag (pc : Word) : BitVec 22 := pc.extractLsb' 10 22

def isLink (r : BitVec 5) : Bool := r == 1 || r == 5

def classify (insn : Word) : Kind :=
  let op := insn.extractLsb' 0 7
  let rd := insn.extractLsb' 7 5
  let rs1 := insn.extractLsb' 15 5
  if op = 0x63 then .branch
  else if op = 0x67 ∧ isLink rs1 ∧ ¬isLink rd then .ret
  else if isLink rd then .call
  else .jump

structure Entry where
  tag : BitVec 22
  kind : Kind
  cnt : Nat
  target : Word

structure BPred where
  btb : BitVec 8 → Option Entry := fun _ => none
  ras : BitVec 3 → Word := fun _ => 0
  rasSp : BitVec 3 := 0
  rasCount : Nat := 0

namespace BPred

def predict (b : BPred) (addr : Word) : Bool × Word :=
  match b.btb (btbIndex addr) with
  | none => (false,0)
  | some e =>
    if e.tag ≠ btbTag addr then (false,0)
    else match e.kind with
      | .branch => if e.cnt ≥ 2 then (true,e.target) else (false,0)
      | .ret => if b.rasCount > 0 then (true,b.ras (b.rasSp-1)) else (false,0)
      | _ => (true,e.target)

def ownEntry (b : BPred) (pc : Word) : Option Entry :=
  (b.btb (btbIndex pc)).filter fun e => e.tag = btbTag pc

def updateBtb (b : BPred) (pc insn : Word) (taken : Bool) (target : Word) :
    BitVec 8 → Option Entry :=
  let kind := classify insn
  if taken then
    let cnt := match b.ownEntry pc with
      | some e => if kind = .branch then min (e.cnt+1) 3 else allocCnt
      | none => allocCnt
    Function.update b.btb (btbIndex pc) (some ⟨btbTag pc,kind,cnt,target⟩)
  else match b.ownEntry pc with
    | some e =>
      if kind = .branch then
        Function.update b.btb (btbIndex pc) (some ⟨btbTag pc,kind,e.cnt-1,e.target⟩)
      else b.btb
    | none => b.btb

def update (b : BPred) (pc insn : Word) (taken : Bool) (target : Word) : BPred :=
  let b' := {b with btb := b.updateBtb pc insn taken target}
  match classify insn with
  | .call => {b' with
      ras := Function.update b.ras b.rasSp (pc+4)
      rasSp := b.rasSp+1
      rasCount := min (b.rasCount+1) rasEntries}
  | .ret => {b' with rasSp := b.rasSp-1, rasCount := b.rasCount-1}
  | _ => b'

end BPred

/-- An update that has not landed. -/
structure Pending where
  cycle : Int
  pc : Word
  insn : Word
  taken : Bool
  target : Word

structure DelayedBPred where
  bp : BPred := {}
  gap : Int := visibilityGap
  pending : List Pending := []

namespace DelayedBPred

def drainFrom (gap now : Int) : BPred → List Pending → BPred × List Pending
  | bp,[] => (bp,[])
  | bp,p :: rest =>
    if now-p.cycle ≥ gap then drainFrom gap now (bp.update p.pc p.insn p.taken p.target) rest
    else (bp,p :: rest)

def drain (d : DelayedBPred) (now : Int) : DelayedBPred :=
  let r := drainFrom d.gap now d.bp d.pending
  {d with bp := r.1, pending := r.2}

def predict (d : DelayedBPred) (addr : Word) (now : Int) : (Bool × Word) × DelayedBPred :=
  ((d.drain now).bp.predict addr,d.drain now)

def update (d : DelayedBPred) (cycle : Int) (pc insn : Word) (taken : Bool) (target : Word) :
    DelayedBPred :=
  {d with pending := d.pending ++ [⟨cycle,pc,insn,taken,target⟩]}

end DelayedBPred

/-! ### The two predictors hold the same -/

structure EntryIs (e : Entry) (q : Bpred.Entry 8) : Prop where
  tag : Bpred.entTag q = e.tag
  kind : Bpred.entKind q = e.kind.code
  cnt : (Bpred.entCnt q).toNat = e.cnt
  target : Bpred.entTarget q ++ (0 : BitVec 2) = e.target

def SlotIs (e : Option Entry) (valid : Bool) (q : Bpred.Entry 8) : Prop :=
  match e with
  | none => valid = false
  | some e => valid = true ∧ EntryIs e q

structure Mirrors (b : BPred) (s : Bpred.State 8 3) : Prop where
  btb : ∀ i, SlotIs (b.btb i) (s.btbValidQ i) (s.btbQ i)
  sp : b.rasSp = s.rasSpQ
  count : b.rasCount = s.rasCntQ.toNat
  bound : b.rasCount ≤ 2^3
  stack : RingStack.toList b.ras b.rasSp b.rasCount = Bpred.stack s

theorem mirrors_reset (btb : BitVec 8 → Bpred.Entry 8) (ras : BitVec 3 → Word) :
    Mirrors {} (Bpred.reset btb ras) where
  btb _ := rfl
  sp := rfl
  count := rfl
  bound := Nat.zero_le _
  stack := rfl

theorem kind_code_inj {k k' : Kind} : k.code = k'.code ↔ k = k' := by
  cases k <;> cases k' <;> decide

def asPair : Option Word → Bool × Word
  | none => (false,0)
  | some g => (true,g)

theorem predict_eq {b : BPred} {s : Bpred.State 8 3} (h : Mirrors b s) (addr : Word) :
    b.predict addr = asPair (Bpred.answer s addr) := by
  rw [Bpred.answer_eq]
  have hb := h.btb (btbIndex addr)
  have htop : (Bpred.stack s).head? =
      if b.rasCount = 0 then none else some (b.ras (b.rasSp-1)) := by
    rw [← h.stack,RingStack.head?_toList]
  rw [BPred.predict]
  cases he : b.btb (btbIndex addr) with
  | none =>
    rw [he] at hb
    have hv : Bpred.hitAt s addr = false := by
      rw [Bpred.hitAt,show s.btbValidQ (Bpred.index addr) = false from hb]
      rfl
    rw [hv]
    rfl
  | some e =>
    rw [he] at hb
    obtain ⟨hv,hq⟩ := hb
    have hhit : Bpred.hitAt s addr = decide (e.tag = btbTag addr) := by
      rw [Bpred.hitAt,show s.btbValidQ (Bpred.index addr) = true from hv,
        show Bpred.entTag (s.btbQ (Bpred.index addr)) = e.tag from hq.tag]
      simp only [Bool.true_and]
      rfl
    rw [hhit]
    by_cases ht : e.tag = btbTag addr
    · have hk : Bpred.entKind (s.btbQ (Bpred.index addr)) = e.kind.code := hq.kind
      have hg : Bpred.entTarget (s.btbQ (Bpred.index addr)) ++ (0 : BitVec 2) = e.target := hq.target
      have hc : (Bpred.entCnt (s.btbQ (Bpred.index addr))).getLsbD 1 = decide (e.cnt ≥ 2) := by
        rw [← hq.cnt]
        change (Bpred.entCnt (s.btbQ (Bpred.index addr))).getLsbD 1 =
          decide ((Bpred.entCnt (s.btbQ (Bpred.index addr))).toNat ≥ 2)
        generalize Bpred.entCnt (s.btbQ (Bpred.index addr)) = c
        revert c
        decide
      simp only [ht,decide_true,if_true,ne_eq,not_true_eq_false,if_false,Bpred.entryAnswer,hk,hg,hc]
      cases hkind : e.kind with
      | branch =>
        simp only [Kind.code,if_true,decide_eq_true_eq]
        split <;> rfl
      | ret =>
        simp only [Kind.code,if_neg (show bpRet ≠ bpBranch by decide),if_true,htop]
        by_cases h0 : b.rasCount = 0
        · rw [if_pos h0,if_neg (by omega)]
          rfl
        · rw [if_neg h0,if_pos (by omega)]
          rfl
      | jump => rfl
      | call => rfl
    · simp only [ht,decide_false,ne_eq,not_false_eq_true,if_true,Bool.false_eq_true,if_false]
      rfl

/-! ### One update -/

/-- The update EX sends for a transfer that the model is told about. -/
structure SameUpdate (u : Bpred.Update) (p insn : Word) (tk : Bool) (tg : Word) : Prop where
  valid : u.valid = true
  pc : u.pc = p
  kind : u.kind = (classify insn).code
  taken : u.taken = tk
  target : tk = true → u.target = tg ∧ Aligned tg

theorem concat_extract {g : Word} (h : Aligned g) : g.extractLsb' 2 30 ++ (0 : BitVec 2) = g := by
  rw [aligned_iff] at h
  refine BitVec.eq_of_getLsbD_eq fun k hk => ?_
  rcases (by omega : k = 0 ∨ k = 1 ∨ 2 ≤ k) with rfl | rfl | h2
  · rw [getLsbD_low_zero _ (by omega),h.1]
  · rw [getLsbD_low_zero _ (by omega),h.2]
  · rw [BitVec.getLsbD_append,if_neg (by omega),BitVec.getLsbD_extractLsb',show 2+(k-2) = k by omega]
    simp [show k-2 < 30 by omega]

theorem ownEntry_eq {b : BPred} {s : Bpred.State 8 3} (h : Mirrors b s) (pc : Word) :
    match b.ownEntry pc with
    | none => Bpred.hitAt s pc = false
    | some e => Bpred.hitAt s pc = true ∧ e.tag = btbTag pc ∧
        EntryIs e (s.btbQ (Bpred.index pc)) := by
  have hb := h.btb (btbIndex pc)
  rw [BPred.ownEntry]
  cases he : b.btb (btbIndex pc) with
  | none =>
    rw [he] at hb
    simp only [Option.filter_none]
    rw [Bpred.hitAt,show s.btbValidQ (Bpred.index pc) = false from hb]
    rfl
  | some e =>
    rw [he] at hb
    obtain ⟨hv,hq⟩ := hb
    have hhit : Bpred.hitAt s pc = decide (e.tag = btbTag pc) := by
      rw [Bpred.hitAt,show s.btbValidQ (Bpred.index pc) = true from hv,
        show Bpred.entTag (s.btbQ (Bpred.index pc)) = e.tag from hq.tag]
      simp only [Bool.true_and]
      rfl
    by_cases ht : e.tag = btbTag pc
    · simp only [Option.filter_some,ht,decide_true,if_true]
      exact ⟨by rw [hhit,decide_eq_true ht],trivial,hq⟩
    · simp only [Option.filter_some,ht,decide_false,Bool.false_eq_true,if_false]
      rw [hhit,decide_eq_false ht]

theorem count_up (c : BitVec 2) :
    (if c = 0b11 then (0b11 : BitVec 2) else c+0b01).toNat = min (c.toNat+1) 3 := by
  revert c
  decide

theorem count_down (c : BitVec 2) :
    (if c = 0b00 then (0b00 : BitVec 2) else c-0b01).toNat = c.toNat-1 := by
  revert c
  decide

theorem slot_update {b : BPred} {s : Bpred.State 8 3} (h : Mirrors b s) {u : Bpred.Update}
    {pc insn : Word} {taken : Bool} {target : Word} (hu : SameUpdate u pc insn taken target)
    (i : BitVec 8) : SlotIs (b.updateBtb pc insn taken target i)
      ((Bpred.update s u).btbValidQ i) ((Bpred.update s u).btbQ i) := by
  have hown := ownEntry_eq h pc
  have hbr : Bpred.upIsbr u = decide (classify insn = .branch) := by
    rw [Bpred.upIsbr,hu.kind,← show Kind.branch.code = bpBranch from rfl,Bool.eq_iff_iff,
      beq_iff_eq,kind_code_inj,decide_eq_true_iff]
  have hidx : (Bpred.index u.pc : BitVec 8) = btbIndex pc := by rw [hu.pc]; rfl
  have hold := h.btb i
  simp only [Bpred.update,hidx,hu.valid,true_and]
  by_cases ht : taken = true
  · have hwe : Bpred.btbWe s u = true := by simp [Bpred.btbWe,hu.valid,hu.taken,ht]
    obtain ⟨htg,hal⟩ := hu.target ht
    simp only [hwe,hu.taken,ht,true_and,BPred.updateBtb,if_true]
    by_cases hi : i = btbIndex pc
    · subst hi
      rw [Function.update_self,if_pos rfl,if_pos rfl]
      refine ⟨rfl,?_⟩
      rw [Bpred.btbWdata,hu.taken,if_pos ht]
      refine ⟨?_,?_,?_,?_⟩
      · simp only [Bpred.entTag_pack,hu.pc]
        rfl
      · simp only [Bpred.entKind_pack,hu.kind]
      · simp only [Bpred.entCnt_pack,Bpred.cntTaken,hu.pc,hbr]
        cases ho : b.ownEntry pc with
        | none =>
          rw [ho] at hown
          simp only [hown,Bool.false_and,Bool.false_eq_true,if_false]
          rfl
        | some e =>
          rw [ho] at hown
          simp only [hown.1,Bool.true_and,decide_eq_true_eq]
          by_cases hk : classify insn = .branch
          · rw [if_pos hk,if_pos hk,← hown.2.2.cnt]
            exact count_up _
          · rw [if_neg hk,if_neg hk]
            rfl
      · simp only [Bpred.entTarget_pack,htg]
        exact concat_extract hal
    · rw [Function.update_of_ne hi,if_neg hi,if_neg hi]
      exact hold
  · have hf : taken = false := by simpa using ht
    have hwe : Bpred.btbWe s u = (Bpred.hitAt s pc && decide (classify insn = .branch)) := by
      simp [Bpred.btbWe,hu.valid,hu.taken,hf,hbr,hu.pc]
    simp only [hwe,hu.taken,hf,Bool.false_eq_true,false_and,if_false,BPred.updateBtb]
    cases ho : b.ownEntry pc with
    | none =>
      rw [ho] at hown
      simp only [hown,Bool.false_and,Bool.false_eq_true,false_and,if_false]
      exact hold
    | some e =>
      rw [ho] at hown
      simp only [hown.1,Bool.true_and,decide_eq_true_eq]
      by_cases hk : classify insn = .branch
      · by_cases hi : i = btbIndex pc
        · subst hi
          have hv : s.btbValidQ (btbIndex pc) = true := by
            have := hown.1
            simp only [Bpred.hitAt,Bool.and_eq_true] at this
            exact this.1
          simp only [hk,if_true,Function.update_self,and_self]
          refine ⟨hv,?_⟩
          rw [Bpred.btbWdata,hu.taken,if_neg (by simp [hf])]
          refine ⟨?_,?_,?_,?_⟩
          · simp only [Bpred.entTag_pack,hu.pc]
            rfl
          · simp only [Bpred.entKind_pack,hu.kind,hk]
          · simp only [Bpred.entCnt_pack,Bpred.cntNtaken,hu.pc,← hown.2.2.cnt]
            exact count_down _
          · simp only [Bpred.entTarget_pack,hu.pc]
            exact hown.2.2.target
        · simp only [hk,if_true,hi,and_false,if_false]
          rw [Function.update_of_ne hi]
          exact hold
      · simp only [hk,false_and,if_false]
        exact hold

theorem update_mirrors {b : BPred} {s : Bpred.State 8 3} (h : Mirrors b s) {u : Bpred.Update}
    {pc insn : Word} {taken : Bool} {target : Word} (hu : SameUpdate u pc insn taken target) :
    Mirrors (b.update pc insn taken target) (Bpred.update s u) := by
  have hb : s.rasCntQ.toNat ≤ 2^3 := h.count ▸ h.bound
  have hbtb : (b.update pc insn taken target).btb = b.updateBtb pc insn taken target := by
    rw [BPred.update]
    cases classify insn <;> rfl
  obtain ⟨hst,hbn⟩ := Bpred.stack_update hb u
  have hcall : Bpred.upCall u = decide (classify insn = .call) := by
    rw [Bpred.upCall,hu.valid,hu.kind,Bool.true_and,← show Kind.call.code = bpCall from rfl,
      Bool.eq_iff_iff,beq_iff_eq,kind_code_inj,decide_eq_true_iff]
  have hret : Bpred.upRet u = decide (classify insn = .ret) := by
    rw [Bpred.upRet,hu.valid,hu.kind,Bool.true_and,← show Kind.ret.code = bpRet from rfl,
      Bool.eq_iff_iff,beq_iff_eq,kind_code_inj,decide_eq_true_iff]
  have hslots : ∀ i, SlotIs ((b.update pc insn taken target).btb i)
      ((Bpred.update s u).btbValidQ i) ((Bpred.update s u).btbQ i) := by
    rw [hbtb]
    exact slot_update h hu
  cases hk : classify insn with
  | call =>
    have hc : Bpred.upCall u = true := by rw [hcall,hk]; rfl
    have hcnt := Bpred.rasCnt_push hb hc
    refine ⟨hslots,?_,?_,?_,?_⟩
    · simp only [BPred.update,hk,h.sp]
      simp [Bpred.update,hc]
    · simp only [BPred.update,hk]
      rw [hcnt,h.count]
      rfl
    · simp only [BPred.update,hk]
      exact Nat.min_le_right _ _
    · rw [hst,Bpred.stackNext,if_pos hc,← h.stack,hu.pc]
      simp only [BPred.update,hk]
      exact RingStack.toList_push (fun k h0 hlt => Bpred.cast_ne_zero h0 hlt)
        (Nat.two_pow_pos 3) _ _ _ h.bound
  | ret =>
    have hc : Bpred.upCall u = false := by rw [hcall,hk]; rfl
    have hr : Bpred.upRet u = true := by rw [hret,hk]; rfl
    have hcnt := Bpred.rasCnt_pop hc hr (s := s)
    refine ⟨hslots,?_,?_,?_,?_⟩
    · simp only [BPred.update,hk,h.sp]
      simp [Bpred.update,hc,hr]
    · simp only [BPred.update,hk]
      rw [hcnt,h.count]
    · simp only [BPred.update,hk]
      exact Nat.le_trans (Nat.sub_le _ _) h.bound
    · rw [hst,Bpred.stackNext,if_neg (by simp [hc]),if_pos hr,← h.stack]
      simp only [BPred.update,hk]
      exact RingStack.toList_pop _ _ _
  | branch | jump =>
    have hc : Bpred.upCall u = false := by rw [hcall,hk]; rfl
    have hr : Bpred.upRet u = false := by rw [hret,hk]; rfl
    refine ⟨hslots,?_,?_,?_,?_⟩
    · simp only [BPred.update,hk,h.sp]
      simp [Bpred.update,hc,hr]
    · simp only [BPred.update,hk,h.count]
      simp [Bpred.update,hc,hr]
    · simp only [BPred.update,hk]
      exact h.bound
    · rw [hst,Bpred.stackNext,if_neg (by simp [hc]),if_neg (by simp [hr]),← h.stack]
      simp only [BPred.update,hk]

end Rvntt.Ref
