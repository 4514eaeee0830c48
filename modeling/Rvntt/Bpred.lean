import Mathlib.Data.BitVec
import Rvntt.Pkg
import Rvntt.Lib.RingStack
set_option autoImplicit false

/-!
`rvntt_bpred`: a direct-mapped BTB whose entries carry a two-bit counter and a
transfer kind, and a return-address stack. The two sizes are `2^idxW` entries and
`2^rasW` return addresses; the core builds it with 256 and 8.
-/

namespace Rvntt.Bpred

def tagW (idxW : Nat) : Nat := 32-2-idxW

/-- From bit 0 up: target[31:2], counter, kind, tag. -/
abbrev Entry (idxW : Nat) := BitVec (tagW idxW+2+2+30)

structure State (idxW rasW : Nat) where
  btbQ : BitVec idxW → Entry idxW := fun _ => 0
  btbValidQ : BitVec idxW → Bool := fun _ => false
  rasQ : BitVec rasW → Word := fun _ => 0
  rasSpQ : BitVec rasW := 0
  rasCntQ : BitVec (rasW+1) := 0
  predTakenQ : Bool := false
  predTargetQ : Word := 0
  predHitQ : Bool := false

structure Update where
  valid : Bool
  pc : Word
  kind : BitVec 2
  taken : Bool
  target : Word

structure In where
  lookupPc : Word
  flush : Bool
  hold : Bool
  upd : Update

variable {idxW rasW : Nat}

/-! ### Entry fields -/

def index (pc : Word) : BitVec idxW := pc.extractLsb' 2 idxW
def tag (pc : Word) : BitVec (tagW idxW) := pc.extractLsb' (2+idxW) (tagW idxW)

def pack (t : BitVec (tagW idxW)) (k c : BitVec 2) (g : BitVec 30) : Entry idxW :=
  t ++ k ++ c ++ g

def entTarget (e : Entry idxW) : BitVec 30 := e.extractLsb' 0 30
def entCnt (e : Entry idxW) : BitVec 2 := e.extractLsb' 30 2
def entKind (e : Entry idxW) : BitVec 2 := e.extractLsb' 32 2
def entTag (e : Entry idxW) : BitVec (tagW idxW) := e.extractLsb' 34 (tagW idxW)

@[simp] theorem entTarget_pack (t : BitVec (tagW idxW)) (k c : BitVec 2) (g : BitVec 30) :
    entTarget (pack t k c g) = g := by
  ext i hi
  simp [entTarget,pack,BitVec.getLsbD_append,hi]

@[simp] theorem entCnt_pack (t : BitVec (tagW idxW)) (k c : BitVec 2) (g : BitVec 30) :
    entCnt (pack t k c g) = c := by
  ext i hi
  simp [entCnt,pack,BitVec.getLsbD_append,hi]

@[simp] theorem entKind_pack (t : BitVec (tagW idxW)) (k c : BitVec 2) (g : BitVec 30) :
    entKind (pack t k c g) = k := by
  ext i hi
  simp [entKind,pack,BitVec.getLsbD_append,show ¬32+i < 30 by omega,
    show ¬32+i-30 < 2 by omega,show 32+i-30-2 = i by omega,hi]

@[simp] theorem entTag_pack (t : BitVec (tagW idxW)) (k c : BitVec 2) (g : BitVec 30) :
    entTag (pack t k c g) = t := by
  ext i hi
  simp [entTag,pack,BitVec.getLsbD_append,show ¬34+i < 30 by omega,
    show ¬34+i-30 < 2 by omega,show ¬34+i-30-2 < 2 by omega,show 34+i-30-2-2 = i by omega,
    BitVec.getLsbD_eq_getElem hi]

/-! ### Update -/

def hitAt (s : State idxW rasW) (pc : Word) : Bool :=
  s.btbValidQ (index pc) && entTag (s.btbQ (index pc)) == tag pc

def upIsbr (u : Update) : Bool := u.kind == bpBranch

/-- A fresh entry starts weakly taken. -/
def cntTaken (s : State idxW rasW) (u : Update) : BitVec 2 :=
  let upCnt := entCnt (s.btbQ (index u.pc))
  if hitAt s u.pc && upIsbr u then (if upCnt = 0b11 then 0b11 else upCnt+0b01) else 0b10

def cntNtaken (s : State idxW rasW) (u : Update) : BitVec 2 :=
  let upCnt := entCnt (s.btbQ (index u.pc))
  if upCnt = 0b00 then 0b00 else upCnt-0b01

/-- A taken resolution allocates; a not-taken branch only moves its own counter. -/
def btbWe (s : State idxW rasW) (u : Update) : Bool :=
  u.valid && (u.taken || (hitAt s u.pc && upIsbr u))

def btbWdata (s : State idxW rasW) (u : Update) : Entry idxW :=
  if u.taken then pack (tag u.pc) u.kind (cntTaken s u) (u.target.extractLsb' 2 30)
  else pack (tag u.pc) u.kind (cntNtaken s u) (entTarget (s.btbQ (index u.pc)))

def upCall (u : Update) : Bool := u.valid && u.kind == bpCall
def upRet (u : Update) : Bool := u.valid && u.kind == bpRet

def update (s : State idxW rasW) (u : Update) : State idxW rasW :=
  {s with
    btbQ := fun i => if btbWe s u ∧ i = index u.pc then btbWdata s u else s.btbQ i
    btbValidQ := fun i => if u.valid ∧ u.taken ∧ i = index u.pc then true else s.btbValidQ i
    rasQ := fun i => if upCall u ∧ i = s.rasSpQ then u.pc+4 else s.rasQ i
    rasSpQ :=
      if upCall u then s.rasSpQ+1 else if upRet u then s.rasSpQ-1 else s.rasSpQ
    rasCntQ :=
      if upCall u then
        (if s.rasCntQ ≠ BitVec.ofNat _ (2^rasW) then s.rasCntQ+1 else s.rasCntQ)
      else if upRet u then (if s.rasCntQ ≠ 0 then s.rasCntQ-1 else s.rasCntQ)
      else s.rasCntQ}

/-! ### Lookup -/

def rasTop (s : State idxW rasW) : Word := s.rasQ (s.rasSpQ-1)

def lkKind (s : State idxW rasW) (pc : Word) : BitVec 2 := entKind (s.btbQ (index pc))

def takenC (s : State idxW rasW) (pc : Word) : Bool :=
  let kind := lkKind s pc
  if kind = bpBranch then hitAt s pc && (entCnt (s.btbQ (index pc))).getLsbD 1
  else if kind = bpRet then hitAt s pc && s.rasCntQ != 0
  else hitAt s pc

def targetC (s : State idxW rasW) (pc : Word) : Word :=
  if lkKind s pc = bpRet then rasTop s else entTarget (s.btbQ (index pc)) ++ (0 : BitVec 2)

/-- The registered prediction: suppressed by a flush, kept by a hold. -/
def next (s : State idxW rasW) (i : In) : State idxW rasW :=
  let t := update s i.upd
  if !i.hold || i.flush then
    {t with
      predTakenQ := takenC s i.lookupPc && !i.flush
      predTargetQ := targetC s i.lookupPc
      predHitQ := hitAt s i.lookupPc && !i.flush}
  else t

def pred (s : State idxW rasW) : Pred := ⟨s.predTakenQ,s.predTargetQ,s.predHitQ⟩

/-- Neither array has a reset; nothing in them is valid. -/
def reset (btb : BitVec idxW → Entry idxW) (ras : BitVec rasW → Word) : State idxW rasW :=
  {btbQ := btb, rasQ := ras}

/-! ### The return stack -/

def stack (s : State idxW rasW) : List Word :=
  RingStack.toList s.rasQ s.rasSpQ s.rasCntQ.toNat

def stackNext (s : State idxW rasW) (u : Update) : List Word :=
  if upCall u then ((u.pc+4) :: stack s).take (2^rasW)
  else if upRet u then (stack s).tail
  else stack s

theorem cast_ne_zero {w k : Nat} (h0 : 0 < k) (h : k < 2^w) : (k : BitVec w) ≠ 0 := by
  intro he
  have := congrArg BitVec.toNat he
  simp [Nat.mod_eq_of_lt h] at this
  omega

theorem toNat_one {w : Nat} (h : 0 < w) : (1 : BitVec w).toNat = 1 :=
  Nat.mod_eq_of_lt (Nat.one_lt_two_pow (by omega))

theorem rasCnt_push {s : State idxW rasW} {u : Update} (hb : s.rasCntQ.toNat ≤ 2^rasW)
    (hc : upCall u = true) : (update s u).rasCntQ.toNat = min (s.rasCntQ.toNat+1) (2^rasW) := by
  have hp : 2^(rasW+1) = 2*2^rasW := by rw [Nat.pow_succ,Nat.mul_comm]
  have hpos : 0 < 2^rasW := Nat.two_pow_pos rasW
  simp only [update,hc,if_true]
  split
  · rename_i hne
    have hlt : s.rasCntQ.toNat ≠ 2^rasW := by
      intro he
      apply hne
      apply BitVec.eq_of_toNat_eq
      rw [he,BitVec.toNat_ofNat,Nat.mod_eq_of_lt (by omega)]
    rw [BitVec.toNat_add,toNat_one (by omega),Nat.mod_eq_of_lt (by omega)]
    omega
  · rename_i he
    rw [not_not] at he
    rw [he,BitVec.toNat_ofNat,Nat.mod_eq_of_lt (by omega)]
    omega

theorem rasCnt_pop {s : State idxW rasW} {u : Update} (hc : upCall u = false)
    (hr : upRet u = true) : (update s u).rasCntQ.toNat = s.rasCntQ.toNat-1 := by
  simp only [update,hc,hr,Bool.false_eq_true,if_false,if_true]
  split
  · rename_i hne
    have hpos : s.rasCntQ.toNat ≠ 0 := fun he => hne (BitVec.eq_of_toNat_eq (by simpa using he))
    have hlt := s.rasCntQ.isLt
    rw [BitVec.toNat_sub,toNat_one (by omega),show 2^(rasW+1)-1+s.rasCntQ.toNat =
      s.rasCntQ.toNat-1+2^(rasW+1) by omega,Nat.add_mod_right,Nat.mod_eq_of_lt (by omega)]
  · rename_i he
    rw [not_not] at he
    simp [he]

theorem stack_update {s : State idxW rasW} (hb : s.rasCntQ.toNat ≤ 2^rasW) (u : Update) :
    stack (update s u) = stackNext s u ∧ (update s u).rasCntQ.toNat ≤ 2^rasW := by
  cases hc : upCall u with
  | true =>
    have hcnt := rasCnt_push hb hc
    refine ⟨?_,by omega⟩
    rw [stackNext,if_pos hc,stack,hcnt]
    have hd : (update s u).rasQ = Function.update s.rasQ s.rasSpQ (u.pc+4) := by
      funext i
      simp [update,hc,Function.update_apply]
    have hsp : (update s u).rasSpQ = s.rasSpQ+1 := by simp [update,hc]
    rw [hd,hsp]
    exact RingStack.toList_push (fun k h0 h => cast_ne_zero h0 h) (Nat.two_pow_pos rasW) _ _ _ hb
  | false =>
    have hd : (update s u).rasQ = s.rasQ := by
      funext i
      simp [update,hc]
    cases hr : upRet u with
    | true =>
      have hcnt := rasCnt_pop hc hr (s := s)
      refine ⟨?_,by omega⟩
      have hsp : (update s u).rasSpQ = s.rasSpQ-1 := by simp [update,hc,hr]
      rw [stackNext,hc,hr,stack,hcnt,hd,hsp]
      exact RingStack.toList_pop _ _ _
    | false =>
      have hcnt : (update s u).rasCntQ = s.rasCntQ := by simp [update,hc,hr]
      have hsp : (update s u).rasSpQ = s.rasSpQ := by simp [update,hc,hr]
      rw [stackNext,hc,hr,stack,hcnt,hd,hsp]
      exact ⟨rfl,hb⟩

/-! ### What a lookup says -/

def answer (s : State idxW rasW) (pc : Word) : Option Word :=
  if takenC s pc then some (targetC s pc) else none

def entryAnswer (top : Option Word) (e : Entry idxW) : Option Word :=
  if entKind e = bpBranch then
    if (entCnt e).getLsbD 1 then some (entTarget e ++ (0 : BitVec 2)) else none
  else if entKind e = bpRet then top
  else some (entTarget e ++ (0 : BitVec 2))

theorem top_stack (s : State idxW rasW) :
    (stack s).head? = if s.rasCntQ = 0 then none else some (rasTop s) := by
  rw [stack,RingStack.head?_toList]
  by_cases h : s.rasCntQ = 0
  · rw [if_pos h,if_pos (by rw [h]; rfl)]
  · rw [if_neg h,if_neg fun he => h (BitVec.eq_of_toNat_eq (by simpa using he))]
    rfl

theorem top_stackNext (s : State idxW rasW) (u : Update) : (stackNext s u).head? =
    if upCall u then some (u.pc+4) else if upRet u then (stack s).tail.head?
    else (stack s).head? := by
  obtain ⟨n,hn⟩ := Nat.exists_eq_succ_of_ne_zero (Nat.two_pow_pos rasW).ne'
  rw [stackNext,hn,List.take_succ_cons]
  cases upCall u with
  | true => rfl
  | false => cases upRet u <;> rfl

theorem answer_eq (s : State idxW rasW) (pc : Word) : answer s pc =
    if hitAt s pc then entryAnswer (stack s).head? (s.btbQ (index pc)) else none := by
  rw [answer,takenC,targetC,lkKind,entryAnswer,top_stack]
  by_cases hb : entKind (s.btbQ (index pc)) = bpBranch
  · have hr : bpBranch ≠ bpRet := by decide
    simp only [hb,if_true,if_neg hr,Bool.and_eq_true]
    cases hitAt s pc <;> simp
  · by_cases hr : entKind (s.btbQ (index pc)) = bpRet
    · simp only [hr,if_true,if_neg (show bpRet ≠ bpBranch by decide)]
      cases hitAt s pc with
      | false => rfl
      | true => by_cases hc : s.rasCntQ = 0 <;> simp [hc]
    · simp only [if_neg hb,if_neg hr]

/-! ### What an update changes -/

def Writes (s : State idxW rasW) (u : Update) (pc : Word) : Prop :=
  btbWe s u = true ∧ (index pc : BitVec idxW) = index u.pc

theorem answer_update_of_not_writes {s : State idxW rasW} {u : Update} {pc : Word}
    (hb : s.rasCntQ.toNat ≤ 2^rasW) (h : ¬Writes s u pc) : answer (update s u) pc =
      if hitAt s pc then entryAnswer (stackNext s u).head? (s.btbQ (index pc)) else none := by
  have he : (update s u).btbQ (index pc) = s.btbQ (index pc) := if_neg h
  have hv : (update s u).btbValidQ (index pc) = s.btbValidQ (index pc) := by
    refine if_neg fun hw => h ⟨?_,hw.2.2⟩
    simp [btbWe,hw.1,hw.2.1]
  rw [answer_eq,(stack_update hb u).1,hitAt,he,hv]
  rfl

theorem answer_update_of_writes {s : State idxW rasW} {u : Update} {pc : Word}
    (hb : s.rasCntQ.toNat ≤ 2^rasW) (h : Writes s u pc) : answer (update s u) pc =
      if (tag u.pc : BitVec (tagW idxW)) = tag pc then
        entryAnswer (stackNext s u).head? (btbWdata s u) else none := by
  obtain ⟨hw,hi⟩ := h
  have he : (update s u).btbQ (index pc) = btbWdata s u := if_pos ⟨hw,hi⟩
  have hv : (update s u).btbValidQ (index pc) = true := by
    simp only [btbWe,Bool.and_eq_true,Bool.or_eq_true,hitAt] at hw
    by_cases ht : u.taken = true
    · exact if_pos ⟨hw.1,ht,hi⟩
    · refine (if_neg fun h => ht h.2.1).trans ?_
      rw [hi]
      exact (hw.2.resolve_left ht).1.1
  have htag : entTag (btbWdata s u) = tag u.pc := by
    unfold btbWdata
    split <;> simp
  rw [answer_eq,(stack_update hb u).1,hitAt,he,hv,htag]
  simp

/-- The ways in which an update can change what a lookup of `pc` says: it takes
the entry away, it is for `pc` itself and changes what its entry says, or it
pushes or pops the stack under a return. -/
inductive Disturbs (s : State idxW rasW) (u : Update) (pc : Word) : Prop where
  | evicts (hw : Writes s u pc) (ht : (tag u.pc : BitVec (tagW idxW)) ≠ tag pc)
      (hp : takenC s pc = true)
  | relearns (hw : Writes s u pc) (ht : (tag u.pc : BitVec (tagW idxW)) = tag pc)
      (hp : entryAnswer (stackNext s u).head? (btbWdata s u) ≠ answer s pc)
  | pushes (hw : ¬Writes s u pc) (hh : hitAt s pc = true) (hk : lkKind s pc = bpRet)
      (hc : upCall u = true) (hp : (stack s).head? ≠ some (u.pc+4))
  | pops (hw : ¬Writes s u pc) (hh : hitAt s pc = true) (hk : lkKind s pc = bpRet)
      (hr : upRet u = true) (hp : (stack s).tail.head? ≠ (stack s).head?)

instance (s : State idxW rasW) (u : Update) (pc : Word) : Decidable (Writes s u pc) :=
  inferInstanceAs (Decidable (_ ∧ _))

instance (s : State idxW rasW) (u : Update) (pc : Word) : Decidable (Disturbs s u pc) :=
  decidable_of_iff
    ((Writes s u pc ∧ (tag u.pc : BitVec (tagW idxW)) ≠ tag pc ∧ takenC s pc = true) ∨
    (Writes s u pc ∧ (tag u.pc : BitVec (tagW idxW)) = tag pc ∧
      entryAnswer (stackNext s u).head? (btbWdata s u) ≠ answer s pc) ∨
    (¬Writes s u pc ∧ hitAt s pc = true ∧ lkKind s pc = bpRet ∧ upCall u = true ∧
      (stack s).head? ≠ some (u.pc+4)) ∨
    (¬Writes s u pc ∧ hitAt s pc = true ∧ lkKind s pc = bpRet ∧ upRet u = true ∧
      (stack s).tail.head? ≠ (stack s).head?)) <| by
  constructor
  · rintro (⟨hw,ht,hp⟩ | ⟨hw,ht,hp⟩ | ⟨hw,hh,hk,hc,hp⟩ | ⟨hw,hh,hk,hr,hp⟩)
    · exact .evicts hw ht hp
    · exact .relearns hw ht hp
    · exact .pushes hw hh hk hc hp
    · exact .pops hw hh hk hr hp
  · intro h
    cases h with
    | evicts hw ht hp => exact .inl ⟨hw,ht,hp⟩
    | relearns hw ht hp => exact .inr (.inl ⟨hw,ht,hp⟩)
    | pushes hw hh hk hc hp => exact .inr (.inr (.inl ⟨hw,hh,hk,hc,hp⟩))
    | pops hw hh hk hr hp => exact .inr (.inr (.inr ⟨hw,hh,hk,hr,hp⟩))

theorem upRet_of_upCall {u : Update} (h : upCall u = true) : upRet u = false := by
  simp only [upCall,Bool.and_eq_true,beq_iff_eq] at h
  simp [upRet,h.2,bpCall,bpRet]

theorem answer_update_iff {s : State idxW rasW} (hb : s.rasCntQ.toNat ≤ 2^rasW) (u : Update)
    (pc : Word) : answer (update s u) pc = answer s pc ↔ ¬Disturbs s u pc := by
  by_cases hw : Writes s u pc
  · rw [answer_update_of_writes hb hw]
    by_cases ht : (tag u.pc : BitVec (tagW idxW)) = tag pc
    · rw [if_pos ht]
      constructor
      · intro he hd
        cases hd with
        | evicts _ ht' => exact ht' ht
        | relearns _ _ hp => exact hp he
        | pushes hw' => exact hw' hw
        | pops hw' => exact hw' hw
      · intro hd
        by_contra hp
        exact hd (.relearns hw ht hp)
    · rw [if_neg ht]
      constructor
      · intro he hd
        cases hd with
        | evicts _ _ hp => simp [answer,hp] at he
        | relearns _ ht' => exact ht ht'
        | pushes hw' => exact hw' hw
        | pops hw' => exact hw' hw
      · intro hd
        rw [answer,if_neg fun hp => hd (.evicts hw ht hp)]
  · rw [answer_update_of_not_writes hb hw,answer_eq]
    by_cases hr : hitAt s pc = true ∧ lkKind s pc = bpRet
    · obtain ⟨hh,hk⟩ := hr
      have hk' : entKind (s.btbQ (index pc)) = bpRet := hk
      simp only [hh,if_true,entryAnswer,hk',if_neg (show bpRet ≠ bpBranch by decide),
        top_stackNext]
      constructor
      · intro he hd
        cases hd with
        | evicts hw' => exact hw hw'
        | relearns hw' => exact hw hw'
        | pushes _ _ _ hc hp =>
          rw [if_pos hc] at he
          exact hp he.symm
        | pops _ _ _ hr hp =>
          have hc : upCall u = false := by
            by_contra hc
            simp [upRet_of_upCall (by simpa using hc)] at hr
          rw [hc,hr] at he
          exact hp he
      · intro hd
        by_contra hp
        cases hc : upCall u with
        | true =>
          rw [hc] at hp
          exact hd (.pushes hw hh hk hc fun he => hp he.symm)
        | false =>
          cases hr : upRet u with
          | true =>
            rw [hc,hr] at hp
            exact hd (.pops hw hh hk hr hp)
          | false =>
            rw [hc,hr] at hp
            exact hp rfl
    · constructor
      · intro _ hd
        cases hd with
        | evicts hw' => exact hw hw'
        | relearns hw' => exact hw hw'
        | pushes _ hh hk => exact hr ⟨hh,hk⟩
        | pops _ hh hk => exact hr ⟨hh,hk⟩
      · intro _
        cases hh : hitAt s pc with
        | false => rfl
        | true =>
          have hk : entKind (s.btbQ (index pc)) ≠ bpRet := fun hk => hr ⟨hh,hk⟩
          simp only [if_true,entryAnswer,if_neg hk]

end Rvntt.Bpred
