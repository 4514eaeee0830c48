import Rvntt.Interlock
set_option autoImplicit false

/-!
How long each instruction takes. An instruction is fresh in its first EX cycle;
from there its occupancy fixes when it finishes, and the edge after that fixes
when the next one is fresh.
-/

namespace Rvntt

/-- EX cycles of an instruction: the four multiplies, the four divides, and the
rest. -/
def occ (insn : Word) : Nat :=
  if opcode insn = opcOp ∧ funct7 insn = f7Muldiv then
    if (funct3 insn).getLsbD 2 then muldivDivCycles else muldivMulCycles
  else 1

theorem occ_muldiv {insn : Word} (h : (decode insn).isMuldiv = true) :
    occ insn = Muldiv.latency (decode insn).muldivOp+1 := by
  have hc := (decode_shape insn).muldiv_eq h
  rw [occ,if_pos ((isMuldiv_iff insn).mp h),hc]
  unfold Muldiv.latency Muldiv.opIsDiv muldivDivCycles muldivMulCycles
  simp only
  split <;> rfl

theorem occ_single {insn : Word} (h : (decode insn).isMuldiv = false) : occ insn = 1 := by
  refine if_neg fun hm => ?_
  rw [(isMuldiv_iff insn).mpr hm] at h
  cases h

namespace Core

def Fresh (s : State) : Prop := s.idExQ.valid = true ∧ s.muldiv.activeQ = false

def SameInsn (q q' : IdEx) : Prop := ∃ fa fb, q' = {q with fwdA := fa, fwdB := fb}

theorem SameInsn.refl (q : IdEx) : SameInsn q q := ⟨q.fwdA,q.fwdB,rfl⟩

theorem SameInsn.trans {p q r : IdEx} (h : SameInsn p q) (g : SameInsn q r) : SameInsn p r := by
  obtain ⟨_,_,rfl⟩ := h
  obtain ⟨fa,fb,rfl⟩ := g
  exact ⟨fa,fb,rfl⟩

theorem SameInsn.insn_eq {p q : IdEx} (h : SameInsn p q) : q.insn = p.insn := by
  obtain ⟨_,_,rfl⟩ := h
  rfl

theorem sameInsn_held (s : State) : SameInsn s.idExQ (heldEx s) := ⟨_,_,rfl⟩

section run

variable (resetPc : Word) (x : Nat → In)

theorem run_next (t : Nat) : run resetPc x (t+1) = next (run resetPc x t) (x t) := rfl

theorem idExQ_of_stall {t : Nat} (hs : exStall (run resetPc x t) = true) :
    (run resetPc x (t+1)).idExQ = heldEx (run resetPc x t) := by
  rw [run_next]
  cases edge (run resetPc x t) (x t) with
  | hold _ _ _ _ hex _ => exact hex
  | redirect h => rw [hs] at h; cases h
  | loaduse h => rw [hs] at h; cases h
  | advance h => rw [hs] at h; cases h

/-! ### Occupancy -/

theorem muldiv_cycle {t : Nat} (hf : Fresh (run resetPc x t))
    (hm : (run resetPc x t).idExQ.ctrl.isMuldiv = true) (k : Nat)
    (hk : k+1 ≤ Muldiv.latency (run resetPc x t).idExQ.ctrl.muldivOp) :
    exStall (run resetPc x (t+k)) = true ∧
      (run resetPc x (t+k+1)).muldiv = Muldiv.after (run resetPc x t).idExQ.ctrl.muldivOp
        (exRs1Fwd (run resetPc x t)) (exRs2Fwd (run resetPc x t)) k ∧
      SameInsn (run resetPc x t).idExQ (run resetPc x (t+k+1)).idExQ := by
  obtain ⟨hv,ha⟩ := hf
  induction k with
  | zero =>
    have hreq : (muldivIn (run resetPc x t)).req = true := by simp [muldivIn,exMdReq,hv,hm]
    have hs : exStall (run resetPc x t) = true := by
      simp [exStall,exMdReq,hv,hm,Muldiv.done,ha]
    refine ⟨hs,?_,?_⟩
    · exact Muldiv.next_start hreq ha
    · rw [Nat.add_zero,idExQ_of_stall resetPc x hs]
      exact sameInsn_held _
  | succ k ih =>
    obtain ⟨_,hmd,hq⟩ := ih (by omega)
    obtain ⟨fa,fb,hq'⟩ := hq
    have hreq : (muldivIn (run resetPc x (t+(k+1)))).req = true := by
      simp [muldivIn,exMdReq,← Nat.add_assoc,hq',hv,hm]
    have hdone : Muldiv.done (run resetPc x (t+(k+1))).muldiv
        (muldivIn (run resetPc x (t+(k+1)))) = false := by
      rw [← Nat.add_assoc] at hreq ⊢
      rw [hmd,Muldiv.done_after _ _ _ (by omega) hreq,decide_eq_false_iff_not]
      omega
    have hs : exStall (run resetPc x (t+(k+1))) = true := by
      simp only [exStall,hdone,Bool.not_false,Bool.and_true]
      exact hreq
    refine ⟨hs,?_,?_⟩
    · rw [Muldiv.after_succ,← hmd]
      refine Muldiv.next_advance hreq ?_ hdone
      rw [← Nat.add_assoc,hmd,Muldiv.after_activeQ]
    · rw [idExQ_of_stall resetPc x hs]
      exact SameInsn.trans ⟨fa,fb,hq'⟩ (sameInsn_held _)

theorem fresh_finishes {t : Nat} (hf : Fresh (run resetPc x t)) :
    ∃ n, n+1 = occ (run resetPc x t).idExQ.insn ∧ exDone (run resetPc x (t+n)) = true ∧
      (∀ v, t ≤ v → v < t+n → exDone (run resetPc x v) = false) ∧
      SameInsn (run resetPc x t).idExQ (run resetPc x (t+n)).idExQ := by
  have hd := run_decoded resetPc x t hf.1
  cases hm : (run resetPc x t).idExQ.ctrl.isMuldiv with
  | false =>
    refine ⟨0,?_,?_,?_,SameInsn.refl _⟩
    · rw [occ_single (hd.ctrl ▸ hm)]
    · simp [exDone,exStall,exMdReq,hm,hf.1]
    · intro v h1 h2; omega
  | true =>
    have hb := Muldiv.latency_bounds (run resetPc x t).idExQ.ctrl.muldivOp
    obtain ⟨n,hn⟩ : ∃ n, n+1 = Muldiv.latency (run resetPc x t).idExQ.ctrl.muldivOp :=
      ⟨_,Nat.sub_add_cancel hb.1⟩
    obtain ⟨_,hmd,hq⟩ := muldiv_cycle resetPc x hf hm n (by omega)
    obtain ⟨fa,fb,hq'⟩ := hq
    refine ⟨n+1,?_,?_,?_,⟨fa,fb,hq'⟩⟩
    · rw [occ_muldiv (hd.ctrl ▸ hm),← hd.ctrl,hn]
    · have hreq : (muldivIn (run resetPc x (t+n+1))).req = true := by
        simp [muldivIn,exMdReq,hq',hf.1,hm]
      have hdone := Muldiv.done_after (run resetPc x t).idExQ.ctrl.muldivOp
        (exRs1Fwd (run resetPc x t)) (exRs2Fwd (run resetPc x t)) (k := n) (by omega) hreq
      rw [← hmd] at hdone
      rw [← Nat.add_assoc,exDone,exStall,hdone,hq']
      simp [hf.1,hn]
    · intro v h1 h2
      obtain ⟨k,rfl⟩ := Nat.exists_eq_add_of_le h1
      exact exStall_not_done (muldiv_cycle resetPc x hf hm k (by omega)).1

/-! ### From one instruction to the next -/

theorem fresh_of_waiting {t : Nat} (he : (run resetPc x t).idExQ.valid = false)
    (hv : (run resetPc x t).ifIdQ.valid = true) :
    exDone (run resetPc x t) = false ∧ Fresh (run resetPc x (t+1)) ∧
      (run resetPc x (t+1)).idExQ.insn = (ifId (run resetPc x t) (x t)).insn := by
  have hs : exStall (run resetPc x t) = false := by simp [exStall,exMdReq,he]
  refine ⟨by simp [exDone,he],?_⟩
  have ha := activeQ_next (run resetPc x t) (x t)
  rw [run_next]
  cases edge (run resetPc x t) (x t) with
  | hold h => rw [hs] at h; cases h
  | redirect _ h => rw [exRedirect_valid h] at he; cases he
  | loaduse _ _ h => rw [(idStall_parts h).2.1] at he; cases he
  | advance _ _ _ _ _ _ hex _ => exact ⟨⟨by rw [hex]; exact hv,ha.trans hs⟩,by rw [hex]; rfl⟩

theorem waiting_of_empty {t : Nat} (hv : (run resetPc x t).ifIdQ.valid = false) :
    exDone (run resetPc x t) = false ∧ (run resetPc x (t+1)).idExQ.valid = false ∧
      (run resetPc x (t+1)).ifIdQ.valid = true := by
  have he := ((run_flow resetPc x t).empty hv).1
  have hs : exStall (run resetPc x t) = false := by simp [exStall,exMdReq,he]
  refine ⟨by simp [exDone,he],?_⟩
  rw [run_next]
  cases edge (run resetPc x t) (x t) with
  | hold h => rw [hs] at h; cases h
  | redirect _ h => rw [exRedirect_valid h] at he; cases he
  | loaduse _ _ h => rw [(idStall_parts h).2.1] at he; cases he
  | advance _ _ _ _ hid _ hex _ => exact ⟨by rw [hex]; exact hv,by rw [hid]; rfl⟩

def finished (t : Nat) : Prop := exDone (run resetPc x t) = true

theorem empty_finishes {t : Nat} (hv : (run resetPc x t).ifIdQ.valid = false) :
    ∃ u, finished resetPc x u ∧ u = t+1+occ (run resetPc x u).idExQ.insn ∧
      ∀ v, t ≤ v → v < u → ¬finished resetPc x v := by
  obtain ⟨hd0,he1,hv1⟩ := waiting_of_empty resetPc x hv
  obtain ⟨hd1,hf,_⟩ := fresh_of_waiting resetPc x he1 hv1
  obtain ⟨n,hn,hd,hq,hsame⟩ := fresh_finishes resetPc x hf
  refine ⟨t+2+n,hd,?_,?_⟩
  · rw [hsame.insn_eq]; omega
  · intro v h1 h2
    rw [finished,Bool.not_eq_true]
    rcases (by omega : v = t ∨ v = t+1 ∨ t+2 ≤ v) with rfl | rfl | h
    · exact hd0
    · exact hd1
    · exact hq v h h2

def redirectCount (s : State) : Nat := (exRedirect s).toNat

/-- The load-use bubble between the instruction leaving EX in `s` and `next`. -/
def bubbleCount (s : State) (next : Word) : Nat :=
  if exRedirect s = false ∧ loadUse s.idExQ.insn next = true then 1 else 0

theorem finished_next {t : Nat} (h : finished resetPc x t) :
    ∃ u, Clocked.NextAt (finished resetPc x) t u ∧
      u = t+occ (run resetPc x u).idExQ.insn+
        bubbleCount (run resetPc x t) (run resetPc x u).idExQ.insn+
        2*redirectCount (run resetPc x t) := by
  obtain ⟨hv,hs⟩ := exDone_valid h
  have ha := activeQ_next (run resetPc x t) (x t)
  have hd := run_decoded resetPc x t
  have hidv : (run resetPc x t).ifIdQ.valid = true := by
    by_contra hn
    rw [((run_flow resetPc x t).empty (by simpa using hn)).1] at hv
    cases hv
  have hlu := idStall_iff (x t) hd
  simp only [hidv,hv,true_and] at hlu
  have hn := run_next resetPc x t
  cases edge (run resetPc x t) (x t) with
  | hold h => rw [hs] at h; cases h
  | redirect _ hr _ hid _ _ _ =>
    have hv1 : (run resetPc x (t+1)).ifIdQ.valid = false := by rw [hn,hid]
    obtain ⟨u,hu,hut,hq⟩ := empty_finishes resetPc x hv1
    refine ⟨u,⟨hu,by omega,fun v h1 h2 => hq v (by omega) h2⟩,?_⟩
    rw [redirectCount,bubbleCount,hr,if_neg (by simp)]
    simp only [Bool.toNat_true]
    omega
  | loaduse _ hr hl _ hid hh hex _ =>
    have he1 : (run resetPc x (t+1)).idExQ.valid = false := by rw [hn,hex]
    have hv1 : (run resetPc x (t+1)).ifIdQ.valid = true := by rw [hn,hid]; exact hidv
    obtain ⟨hd1,hf,hi⟩ := fresh_of_waiting resetPc x he1 hv1
    -- the reader in ID was replayed from the hold register
    have hword : (ifId (run resetPc x (t+1)) (x (t+1))).insn =
        (ifId (run resetPc x t) (x t)).insn := by
      rw [hn]
      simp only [ifId,hh,if_true]
      rfl
    obtain ⟨n,hn',hdn,hq,hsame⟩ := fresh_finishes resetPc x hf
    refine ⟨t+2+n,⟨hdn,by omega,?_⟩,?_⟩
    · intro v h1 h2
      rw [finished,Bool.not_eq_true]
      rcases (by omega : v = t+1 ∨ t+2 ≤ v) with rfl | h
      · exact hd1
      · exact hq v h h2
    · rw [hsame.insn_eq,redirectCount,bubbleCount,hr,hi,hword,if_pos ⟨rfl,hlu.mp hl⟩,← hword,← hi]
      simp only [Bool.toNat_false]
      omega
  | advance _ hr hl _ _ _ hex _ =>
    have hf : Fresh (run resetPc x (t+1)) := by
      rw [hn]
      exact ⟨by rw [hex]; exact hidv,ha.trans hs⟩
    have hi : (run resetPc x (t+1)).idExQ.insn = (ifId (run resetPc x t) (x t)).insn := by
      rw [hn,hex]; rfl
    obtain ⟨n,hn',hdn,hq,hsame⟩ := fresh_finishes resetPc x hf
    have hno : ¬loadUse (run resetPc x t).idExQ.insn (ifId (run resetPc x t) (x t)).insn = true := by
      intro h'
      rw [hlu.mpr h'] at hl
      cases hl
    refine ⟨t+1+n,⟨hdn,by omega,?_⟩,?_⟩
    · intro v h1 h2
      rw [finished,Bool.not_eq_true]
      exact hq v (by omega) h2
    · rw [hsame.insn_eq,redirectCount,bubbleCount,hr,hi,if_neg (fun h' => hno h'.2),← hi]
      simp only [Bool.toNat_false]
      omega

theorem finished_first : ∃ u, finished resetPc x u ∧
    u = 1+occ (run resetPc x u).idExQ.insn ∧ ∀ v, v < u → ¬finished resetPc x v := by
  obtain ⟨u,hu,hut,hq⟩ := empty_finishes resetPc x (t := 0) rfl
  exact ⟨u,hu,by omega,fun v => hq v (by omega)⟩

theorem finished_infinite : (Set.ofPred (finished resetPc x)).Infinite := by
  refine Clocked.infinite_of_nextAt ?_ ?_
  · obtain ⟨u,hu,_⟩ := finished_first resetPc x
    exact ⟨u,hu⟩
  · intro t h
    obtain ⟨u,hu,_⟩ := finished_next resetPc x h
    exact ⟨u,hu⟩

/-! ### The whole run -/

/-- The cycle in which instruction `k` of the run finishes in EX. -/
noncomputable def finish (k : Nat) : Nat := Nat.nth (finished resetPc x) k

noncomputable def atFinish (k : Nat) : State := run resetPc x (finish resetPc x k)

theorem archPc_quiet {t u : Nat} (htu : t ≤ u)
    (hq : ∀ v, t ≤ v → v < u → ¬finished resetPc x v) :
    archPc resetPc x u = archPc resetPc x t := by
  induction u with
  | zero => rw [Nat.le_zero.mp htu]
  | succ u ih =>
    rcases Nat.lt_or_ge t (u+1) with h | h
    · exact (if_neg (hq u (by omega) (by omega))).trans
        (ih (by omega) (fun v h1 h2 => hq v h1 (by omega)))
    · rw [Nat.le_antisymm htu h]

theorem archPc_between {t u : Nat} (ht : finished resetPc x t)
    (h : Clocked.NextAt (finished resetPc x) t u) :
    archPc resetPc x u = exRedirectTarget (run resetPc x t) := by
  rw [archPc_quiet resetPc x (t := t+1) h.later (fun v h1 h2 => h.quiet v h1 h2)]
  exact if_pos ht

/-- The timing law of a whole run. The instructions finish one by one along the
architectural path, in cycles fixed by their occupancies, the load-use bubbles
between them and the redirects on them; no other cycle is lost. -/
theorem finish_exact :
    StrictMono (finish resetPc x) ∧
    (∀ t, exDone (run resetPc x t) = true ↔ ∃ k, finish resetPc x k = t) ∧
    finish resetPc x 0 = 1+occ (atFinish resetPc x 0).idExQ.insn ∧
    (atFinish resetPc x 0).idExQ.pc = resetPc ∧
    ∀ k,
      finish resetPc x (k+1) = finish resetPc x k+occ (atFinish resetPc x (k+1)).idExQ.insn+
        bubbleCount (atFinish resetPc x k) (atFinish resetPc x (k+1)).idExQ.insn+
        2*redirectCount (atFinish resetPc x k) ∧
      (atFinish resetPc x (k+1)).idExQ.pc = exRedirectTarget (atFinish resetPc x k) := by
  have hinf := finished_infinite resetPc x
  have hfin : ∀ k, finished resetPc x (finish resetPc x k) := Nat.nth_mem_of_infinite hinf
  have hpc : ∀ k, (atFinish resetPc x k).idExQ.pc = archPc resetPc x (finish resetPc x k) :=
    fun k => (run_flow resetPc x (finish resetPc x k)).exPc (exDone_valid (hfin k)).1
  obtain ⟨u,hu,hut,hfirst⟩ := finished_first resetPc x
  have h0 : finish resetPc x 0 = u := by
    rcases Nat.lt_trichotomy (finish resetPc x 0) u with h | h | h
    · exact absurd (hfin 0) (hfirst _ h)
    · exact h
    · rw [finish,Nat.nth_zero] at h
      exact absurd hu (Nat.notMem_of_lt_sInf h)
  refine ⟨Nat.nth_strictMono hinf,?_,?_,?_,?_⟩
  · intro t
    constructor
    · intro h
      obtain ⟨k,hk⟩ := Nat.subset_range_nth (p := finished resetPc x) h
      exact ⟨k,hk⟩
    · rintro ⟨k,rfl⟩
      exact hfin k
  · rw [atFinish,h0,← hut]
  · rw [hpc,h0]
    exact archPc_quiet resetPc x (Nat.zero_le u) (fun v _ h => hfirst v h)
  · intro k
    have hnext := Clocked.nextAt_nth hinf k
    obtain ⟨v,hv,heq⟩ := finished_next resetPc x (hfin k)
    obtain rfl := hnext.unique hv
    exact ⟨heq,(hpc (k+1)).trans (archPc_between resetPc x (hfin k) hnext)⟩

end run

end Core

end Rvntt
