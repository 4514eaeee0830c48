import Rvntt.Trained
set_option autoImplicit false

/-!
`rvntt_bpred` on its own, of any size and under any stream of inputs: its stack is
the list of calls that have not returned, its table the last taken transfer of each
index.
-/

namespace Rvntt.Bpred

variable {idxW rasW : Nat}

/-! ### What an edge does to the arrays -/

structure SameTables (s t : State idxW rasW) : Prop where
  btb : t.btbQ = s.btbQ
  btbValid : t.btbValidQ = s.btbValidQ
  ras : t.rasQ = s.rasQ
  rasSp : t.rasSpQ = s.rasSpQ
  rasCnt : t.rasCntQ = s.rasCntQ

theorem next_tables (s : State idxW rasW) (i : In) : SameTables (update s i.upd) (next s i) := by
  unfold next
  simp only
  split <;> exact ⟨rfl,rfl,rfl,rfl,rfl⟩

theorem SameTables.stack_eq {s t : State idxW rasW} (h : SameTables s t) : stack t = stack s := by
  rw [stack,stack,h.ras,h.rasSp,h.rasCnt]

theorem entTag_btbWdata (s : State idxW rasW) (u : Update) : entTag (btbWdata s u) = tag u.pc := by
  unfold btbWdata
  split <;> simp

/-! ### The history of the updates -/

/-- The return addresses of the calls that have not returned, newest first; the oldest
one goes when there are more than `cap`. -/
def calls (cap : Nat) (x : Nat → In) : Nat → List Word
  | 0 => []
  | t+1 =>
    let u := (x t).upd
    if u.valid && u.kind == bpCall then ((u.pc+4) :: calls cap x t).take cap
    else if u.valid && u.kind == bpRet then (calls cap x t).tail
    else calls cap x t

/-- Where the last taken transfer with this index was. -/
def latest (x : Nat → In) (i : BitVec idxW) : Nat → Option Word
  | 0 => none
  | t+1 =>
    let u := (x t).upd
    if u.valid = true ∧ u.taken = true ∧ index u.pc = i then some u.pc else latest x i t

section run

variable (btb : BitVec idxW → Entry idxW) (ras : BitVec rasW → Word) (x : Nat → In)

def machine : Clocked.Machine (State idxW rasW) In := ⟨reset btb ras,next⟩

abbrev run (t : Nat) : State idxW rasW := (machine btb ras).run x t

theorem run_stack (t : Nat) :
    stack (run btb ras x t) = calls (2^rasW) x t ∧ (run btb ras x t).rasCntQ.toNat ≤ 2^rasW := by
  induction t with
  | zero => exact ⟨rfl,Nat.zero_le _⟩
  | succ t ih =>
    have hn := next_tables (run btb ras x t) (x t)
    obtain ⟨hs,hb⟩ := stack_update ih.2 (x t).upd
    rw [run,Clocked.Machine.run_succ]
    change stack (next _ _) = _ ∧ (next _ _).rasCntQ.toNat ≤ _
    rw [hn.stack_eq,hn.rasCnt,hs,stackNext,ih.1]
    exact ⟨rfl,hb⟩

def SlotOf (s : State idxW rasW) (i : BitVec idxW) : Option Word → Prop
  | none => s.btbValidQ i = false
  | some pc => s.btbValidQ i = true ∧ entTag (s.btbQ i) = tag pc ∧ index pc = i ∧ Aligned pc

theorem SlotOf.congr {s t : State idxW rasW} {i : BitVec idxW} {o : Option Word}
    (h : SlotOf s i o) (hst : SameTables s t) : SlotOf t i o := by
  cases o with
  | none => exact (congrFun hst.btbValid i).trans h
  | some pc =>
    obtain ⟨hv,ht,hi⟩ := h
    exact ⟨(congrFun hst.btbValid i).trans hv,(congrArg entTag (congrFun hst.btb i)).trans ht,hi⟩

theorem slotOf_update {s : State idxW rasW} {i : BitVec idxW} {o : Option Word}
    (h : SlotOf s i o) {u : Update} (hu : u.valid = true → Aligned u.pc) :
    SlotOf (update s u) i
      (if u.valid = true ∧ u.taken = true ∧ index u.pc = i then some u.pc else o) := by
  by_cases ha : u.valid = true ∧ u.taken = true ∧ index u.pc = i
  · obtain ⟨hv,ht,rfl⟩ := ha
    have hwe : btbWe s u = true := by simp [btbWe,hv,ht]
    rw [if_pos ⟨hv,ht,rfl⟩]
    refine ⟨if_pos ⟨hv,ht,rfl⟩,?_,rfl,hu hv⟩
    exact (congrArg entTag (if_pos ⟨hwe,rfl⟩)).trans (entTag_btbWdata s u)
  · have hvalid : (update s u).btbValidQ i = s.btbValidQ i :=
      if_neg fun h => ha ⟨h.1,h.2.1,h.2.2.symm⟩
    rw [if_neg ha]
    cases o with
    | none => exact hvalid.trans h
    | some pc =>
      obtain ⟨hv,ht,hi,hal⟩ := h
      refine ⟨hvalid.trans hv,?_,hi,hal⟩
      by_cases hw : btbWe s u = true ∧ i = index u.pc
      · -- only a hit of the same word is rewritten without being taken
        obtain ⟨hwe,hiu⟩ := hw
        have hhit : hitAt s u.pc = true := by
          simp only [btbWe,Bool.and_eq_true,Bool.or_eq_true] at hwe
          exact (hwe.2.resolve_left fun htk => ha ⟨hwe.1,htk,hiu.symm⟩).1
        simp only [hitAt,Bool.and_eq_true,beq_iff_eq] at hhit
        refine (congrArg entTag (if_pos ⟨hwe,hiu⟩)).trans ?_
        rw [entTag_btbWdata,← hhit.2,← hiu,ht]
      · exact (congrArg entTag (if_neg hw)).trans ht

variable {x}

theorem run_slotOf (hx : ∀ t, (x t).upd.valid = true → Aligned (x t).upd.pc) (t : Nat)
    (i : BitVec idxW) : SlotOf (run btb ras x t) i (latest x i t) := by
  induction t with
  | zero => exact rfl
  | succ t ih =>
    exact (slotOf_update ih (hx t)).congr (next_tables (run btb ras x t) (x t))

theorem hitAt_iff {s : State idxW rasW} {pc : Word} {o : Option Word}
    (h : SlotOf s (index pc) o) : hitAt s pc = true ↔
      ∃ a, o = some a ∧ Aligned a ∧ a.extractLsb' 2 30 = pc.extractLsb' 2 30 := by
  rw [hitAt,Bool.and_eq_true,beq_iff_eq]
  cases o with
  | none =>
    rw [show s.btbValidQ (index pc) = false from h]
    simp
  | some q =>
    obtain ⟨hv,ht,hi,hq⟩ := h
    rw [hv,ht]
    constructor
    · rintro ⟨_,he⟩
      exact ⟨q,rfl,hq,(index_tag_iff q pc).mp ⟨hi,he⟩⟩
    · rintro ⟨a,ha,_,hw⟩
      cases ha
      have ht' : (index q : BitVec idxW) = index pc ∧ tag q = tag pc := (index_tag_iff q pc).mpr hw
      exact ⟨rfl,ht'.2⟩

theorem hitAt_aligned {s : State idxW rasW} {pc : Word} (hp : Aligned pc) {o : Option Word}
    (h : SlotOf s (index pc) o) : hitAt s pc = true ↔ o = some pc := by
  rw [hitAt_iff h]
  constructor
  · rintro ⟨a,rfl,ha,hw⟩
    rw [ha.ext hp hw]
  · rintro rfl
    exact ⟨pc,rfl,hp,rfl⟩

theorem live_entry (s : State idxW rasW) {k : Nat} (hk : k < (stack s).length) :
    s.rasQ (s.rasSpQ-1-(k : BitVec rasW)) = (stack s)[k] := by
  simp [stack,RingStack.toList]

theorem ret_taken {s : State idxW rasW} {pc : Word} (hh : hitAt s pc = true)
    (hk : lkKind s pc = bpRet) : takenC s pc = true ↔ stack s ≠ [] := by
  rw [takenC,hk,if_neg (show bpRet ≠ bpBranch by decide),if_pos rfl,hh,Bool.true_and,
    ← List.isSome_head?,top_stack]
  by_cases h : s.rasCntQ = 0 <;> simp [h]

theorem ret_target {s : State idxW rasW} {pc a : Word} (hk : lkKind s pc = bpRet)
    (ha : (stack s).head? = some a) : targetC s pc = a := by
  rw [top_stack] at ha
  rw [targetC,if_pos hk]
  split at ha
  · cases ha
  · exact Option.some.inj ha

theorem pred_next {s : State idxW rasW} {i : In} (hh : i.hold = false) (hf : i.flush = false) :
    pred (next s i) =
      ⟨takenC s i.lookupPc,targetC s i.lookupPc,hitAt s i.lookupPc⟩ := by
  simp [next,pred,hh,hf]

/-- On every stream of word-aligned updates, with both arrays holding anything before:
the count is the length of the list of open calls and the live entries are the list, a
lookup that hits a return entry says what the list says, and a lookup hits exactly when
the last taken transfer of its index was at its own address. -/
theorem bounded_stack (hx : ∀ t, (x t).upd.valid = true → Aligned (x t).upd.pc) (t : Nat) :
    let s := run btb ras x t
    let open' := calls (2^rasW) x t
    s.rasCntQ.toNat = open'.length ∧
    (∀ k (h : k < open'.length), s.rasQ (s.rasSpQ-1-(k : BitVec rasW)) = open'[k]) ∧
    (∀ pc, hitAt s pc = true → lkKind s pc = bpRet →
      (takenC s pc = true ↔ open' ≠ []) ∧ ∀ a, open'.head? = some a → targetC s pc = a) ∧
    (∀ pc, Aligned pc → (hitAt s pc = true ↔ latest x (index pc : BitVec idxW) t = some pc)) ∧
    (∀ pc, hitAt s pc = true ↔ ∃ a, latest x (index pc : BitVec idxW) t = some a ∧
      Aligned a ∧ a.extractLsb' 2 30 = pc.extractLsb' 2 30) ∧
    ((x t).hold = false → (x t).flush = false → pred (run btb ras x (t+1)) =
      ⟨takenC s (x t).lookupPc,targetC s (x t).lookupPc,hitAt s (x t).lookupPc⟩) := by
  obtain ⟨hs,_⟩ := run_stack btb ras x t
  intro s open'
  have hs : stack s = open' := hs
  rw [← hs]
  refine ⟨?_,fun k hk => live_entry s hk,fun pc hh hk => ?_,fun pc hp => ?_,
    fun pc => hitAt_iff (run_slotOf btb ras hx t (index pc)),pred_next⟩
  · rw [stack,RingStack.length_toList]
  · exact ⟨ret_taken hh hk,fun a ha => ret_target hk ha⟩
  · exact hitAt_aligned hp (run_slotOf btb ras hx t (index pc))

end run

/-- Three calls into a stack of two, then a return. -/
def deepCalls (t : Nat) : In where
  lookupPc := 0x4000
  flush := false
  hold := false
  upd :=
    if t < 3 then ⟨true,0x1000+0x400*BitVec.ofNat 32 t,bpCall,true,0x8000⟩
    else if t = 3 then ⟨true,0x4000,bpRet,true,0x1C04⟩
    else ⟨false,0,0,false,0⟩

theorem deepCalls_aligned (t : Nat) : Aligned (deepCalls t).upd.pc := by
  by_cases h : t < 4
  · have : ∀ k : Fin 4, Aligned (deepCalls k.val).upd.pc := by decide
    exact this ⟨t,h⟩
  · rw [deepCalls]
    simp only [show ¬t < 3 by omega,show ¬t = 3 by omega,if_false]
    decide

theorem bounded_stack_deepCalls :
    targetC (run (fun _ : BitVec 1 => 0) (fun _ : BitVec 1 => 0) deepCalls 4) 0x4000 = 0x1404 ∧
    hitAt (run (fun _ : BitVec 1 => 0) (fun _ : BitVec 1 => 0) deepCalls 4) 0x4000 = true := by
  have h := bounded_stack (fun _ : BitVec 1 => 0) (fun _ : BitVec 1 => 0)
    (fun t _ => deepCalls_aligned t) 4
  have hh := (h.2.2.2.1 0x4000 rfl).mpr (by decide +kernel)
  exact ⟨(h.2.2.1 0x4000 hh (by decide +kernel)).2 _ (by decide +kernel),hh⟩

end Rvntt.Bpred
