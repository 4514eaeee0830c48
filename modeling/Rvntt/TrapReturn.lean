import Rvntt.Learnt
import Rvntt.Redirects
set_option autoImplicit false

/-!
What a trap saves, and the return from it: on any bus and with any predictor answers.
-/

namespace Rvntt

namespace Csr

structure SameReturn (s t : State) : Prop where
  mepc : t.mepcQ = s.mepcQ
  mie : t.mstatusMieQ = s.mstatusMieQ
  mpie : t.mstatusMpieQ = s.mstatusMpieQ

theorem SameReturn.trans {s t u : State} (h : SameReturn s t) (h' : SameReturn t u) :
    SameReturn s u := ⟨h'.mepc.trans h.mepc,h'.mie.trans h.mie,h'.mpie.trans h.mpie⟩

theorem write_sameReturn (t : State) {addr : Addr} (v : Word) (h1 : addr ≠ csrMstatus)
    (h2 : addr ≠ csrMepc) : SameReturn t (write t addr v) := by
  unfold write
  rw [if_neg h1]
  iterate 3 refine ite_of (SameReturn t) (fun _ => ⟨rfl,rfl,rfl⟩) fun _ => ?_
  rw [if_neg h2]
  iterate 7 refine ite_of (SameReturn t) (fun _ => ⟨rfl,rfl,rfl⟩) fun _ => ?_
  refine ite_of (SameReturn t) (fun _ => ?_) fun _ => ⟨rfl,rfl,rfl⟩
  iterate 3 refine ite_of (SameReturn t) (fun _ => ⟨rfl,rfl,rfl⟩) fun _ => ?_
  exact ⟨rfl,rfl,rfl⟩

theorem next_sameReturn {s : State} {i : In} (ht : i.trapEn = false) (hm : i.mretEn = false)
    (hw : i.wen = true → i.addr ≠ csrMstatus ∧ i.addr ≠ csrMepc) : SameReturn s (next s i) := by
  unfold next
  rw [ht,hm,if_neg Bool.false_ne_true,if_neg Bool.false_ne_true]
  refine ite_of (SameReturn s) (fun hd => ?_) fun _ => ⟨rfl,rfl,rfl⟩
  simp only [doWrite,Bool.and_eq_true] at hd
  obtain ⟨h1,h2⟩ := hw hd.1.1
  have htick : SameReturn s (tick s i) := ⟨rfl,rfl,rfl⟩
  exact htick.trans (write_sameReturn _ _ h1 h2)

theorem next_trap (s : State) {i : In} (h : i.trapEn = true) :
    (next s i).mepcQ = i.trapPc.extractLsb' 2 30 ∧ (next s i).mstatusMieQ = false ∧
      (next s i).mstatusMpieQ = s.mstatusMieQ := by
  rw [next,if_pos h]
  exact ⟨rfl,rfl,rfl⟩

theorem next_mret (s : State) {i : In} (ht : i.trapEn = false) (h : i.mretEn = true) :
    (next s i).mstatusMieQ = s.mstatusMpieQ ∧ (next s i).mstatusMpieQ = true := by
  rw [next,ht,if_neg Bool.false_ne_true,if_pos h]
  exact ⟨rfl,rfl⟩

end Csr

namespace Core

/-- The instruction in EX traps, returns from a trap or writes what a return reads. -/
def disturbsReturn (s : State) : Bool :=
  exTrap s || (ex s).mret ||
    ((ex s).csrWen && ((ex s).csrAddr == Csr.csrMstatus || (ex s).csrAddr == Csr.csrMepc))

theorem not_disturbsReturn {s : State} (hd : s.idExQ.valid = true → Decoded s.idExQ)
    (h : exDone s = true → disturbsReturn s = false) : disturbsReturn s = false := by
  cases hx : exDone s with
  | true => exact h hx
  | false =>
    obtain ⟨ht,hm,hw,_⟩ := quiet_of_not_done hd hx
    rw [disturbsReturn,exTrap,ht,hm,hw]
    rfl

theorem sameReturn_next {s : State} (i : In) (h : disturbsReturn s = false) :
    Csr.SameReturn s.csr (next s i).csr := by
  simp only [disturbsReturn,Bool.or_eq_false_iff] at h
  obtain ⟨⟨ht,hm⟩,hw⟩ := h
  rw [csr_next]
  refine Csr.next_sameReturn ht hm fun hwen => ?_
  have hwen : (ex s).csrWen = true := hwen
  change (ex s).csrAddr ≠ _ ∧ (ex s).csrAddr ≠ _
  simpa [hwen] using hw

theorem exTrap_done {s : State} (hd : s.idExQ.valid = true → Decoded s.idExQ)
    (h : exTrap s = true) : exDone s = true := by
  by_contra hx
  have hq := (quiet_of_not_done hd (Bool.not_eq_true _ ▸ hx)).1
  exact Bool.false_ne_true (hq.symm.trans h)

theorem mret_done {s : State} (hd : s.idExQ.valid = true → Decoded s.idExQ)
    (h : (ex s).mret = true) : exDone s = true := by
  by_contra hx
  have hq := (quiet_of_not_done hd (Bool.not_eq_true _ ▸ hx)).2.1
  exact Bool.false_ne_true (hq.symm.trans h)

section run

variable {resetPc : Word} {x : Nat → In}

theorem trap_enters (hr : Aligned resetPc) {t : Nat} (ht : exTrap (run resetPc x t) = true) :
    archPc resetPc x (t+1) = Csr.mtvecO (run resetPc x t).csr.toArch ∧
    Csr.mepcO (run resetPc x (t+1)).csr.toArch = archPc resetPc x t ∧
    (run resetPc x (t+1)).csr.mstatusMieQ = false ∧
    (run resetPc x (t+1)).csr.mstatusMpieQ = (run resetPc x t).csr.mstatusMieQ := by
  have hx : (ex (run resetPc x t)).trap = true := ht
  have hd := exTrap_done (run_decoded resetPc x t) ht
  have hpc := (run_flow resetPc x t).exPc (exDone_valid hd).1
  obtain ⟨hmepc,hmie,hmpie⟩ := Csr.next_trap (run resetPc x t).csr
    (i := (ex (run resetPc x t)).csrIn (instretBump (run resetPc x t)) (run resetPc x t).hpmEventQ) hx
  refine ⟨?_,?_,hmie,hmpie⟩
  · rw [archPc,pathNext,if_pos hd,exRedirectTarget,Ex.redirectTarget,if_pos hx]
    rfl
  · have hq : (run resetPc x (t+1)).csr.mepcQ = (run resetPc x t).idExQ.pc.extractLsb' 2 30 := hmepc
    rw [Csr.mepcO,hq,hpc]
    exact Ref.concat_extract (Predicted.archPc_aligned hr x t)

theorem mret_leaves {u : Nat} (hm : (ex (run resetPc x u)).mret = true) :
    archPc resetPc x (u+1) = Csr.mepcO (run resetPc x u).csr.toArch ∧
    (run resetPc x (u+1)).csr.mstatusMieQ = (run resetPc x u).csr.mstatusMpieQ ∧
    (run resetPc x (u+1)).csr.mstatusMpieQ = true := by
  have hd := mret_done (run_decoded resetPc x u) hm
  have hx : (ex (run resetPc x u)).trap = false :=
    Predicted.mret_not_trap (run_decoded resetPc x u (exDone_valid hd).1) hm
  refine ⟨?_,Csr.next_mret (run resetPc x u).csr hx hm⟩
  rw [archPc,pathNext,if_pos hd,exRedirectTarget,Ex.redirectTarget,hx,if_neg Bool.false_ne_true,
    if_pos hm]
  rfl

/-- A handler that neither traps nor writes `mepc` or `mstatus` runs at the vector with
interrupts off and returns to the instruction that trapped, with interrupts as before. -/
theorem trap_return (hr : Aligned resetPc) {t u : Nat} (htu : t < u)
    (ht : exTrap (run resetPc x t) = true) (hm : (ex (run resetPc x u)).mret = true)
    (hq : ∀ v, t < v → v < u → exDone (run resetPc x v) = true →
      disturbsReturn (run resetPc x v) = false) :
    (∀ v, Clocked.NextAt (finished resetPc x) t v →
      (run resetPc x v).idExQ.pc = Csr.mtvecO (run resetPc x t).csr.toArch) ∧
    (∀ v, t < v → v ≤ u → Csr.mepcO (run resetPc x v).csr.toArch = (run resetPc x t).idExQ.pc ∧
      (run resetPc x v).csr.mstatusMieQ = false ∧
      (run resetPc x v).csr.mstatusMpieQ = (run resetPc x t).csr.mstatusMieQ) ∧
    (∀ v, Clocked.NextAt (finished resetPc x) u v →
      (run resetPc x v).idExQ.pc = (run resetPc x t).idExQ.pc) ∧
    (run resetPc x (u+1)).csr.mstatusMieQ = (run resetPc x t).csr.mstatusMieQ ∧
    (run resetPc x (u+1)).csr.mstatusMpieQ = true := by
  have hfin : ∀ v, exDone (run resetPc x v) = true →
      (run resetPc x v).idExQ.pc = archPc resetPc x v := fun v hv =>
    (run_flow resetPc x v).exPc (exDone_valid hv).1
  have hdt := exTrap_done (run_decoded resetPc x t) ht
  have hdu := mret_done (run_decoded resetPc x u) hm
  obtain ⟨hvec,hmepc,hmie,hmpie⟩ := trap_enters hr ht
  obtain ⟨hback,hmie',hmpie'⟩ := mret_leaves hm
  have hsame : ∀ v, t+1 ≤ v → v ≤ u →
      Csr.SameReturn (run resetPc x (t+1)).csr (run resetPc x v).csr := by
    intro v h1
    induction v,h1 using Nat.le_induction with
    | base => exact fun _ => ⟨rfl,rfl,rfl⟩
    | succ v h1 ih =>
      intro h2
      refine (ih (by omega)).trans (sameReturn_next (x v) ?_)
      exact not_disturbsReturn (run_decoded resetPc x v) (hq v (by omega) (by omega))
  have hkept : ∀ v, t < v → v ≤ u →
      Csr.mepcO (run resetPc x v).csr.toArch = (run resetPc x t).idExQ.pc ∧
      (run resetPc x v).csr.mstatusMieQ = false ∧
      (run resetPc x v).csr.mstatusMpieQ = (run resetPc x t).csr.mstatusMieQ := by
    intro v h1 h2
    have h := hsame v h1 h2
    refine ⟨?_,h.mie.trans hmie,h.mpie.trans hmpie⟩
    rw [hfin t hdt,← hmepc,Csr.mepcO,Csr.mepcO,h.mepc]
  refine ⟨fun v hv => ?_,hkept,fun v hv => ?_,?_,hmpie'⟩
  · rw [hfin v hv.holds,archPc_quiet resetPc x hv.later hv.quiet,hvec]
  · rw [hfin v hv.holds,archPc_quiet resetPc x hv.later hv.quiet,hback]
    exact (hkept u htu (Nat.le_refl u)).1
  · rw [hmie']
    exact (hkept u htu (Nat.le_refl u)).2.2

end run

/-- `ecall`, the handler's `mret`, and `ecall` again. -/
def trapOnce : Nat → In := fetches [0,0x00000073,0,0,0x30200073,0,0,0x00000073] none

theorem trap_return_trapOnce :
    (∀ v, Clocked.NextAt (finished 0x80000000 trapOnce) 2 v →
      (run 0x80000000 trapOnce v).idExQ.pc =
        Csr.mtvecO (run 0x80000000 trapOnce 2).csr.toArch) ∧
    (∀ v, 2 < v → v ≤ 5 → Csr.mepcO (run 0x80000000 trapOnce v).csr.toArch =
        (run 0x80000000 trapOnce 2).idExQ.pc ∧
      (run 0x80000000 trapOnce v).csr.mstatusMieQ = false ∧
      (run 0x80000000 trapOnce v).csr.mstatusMpieQ =
        (run 0x80000000 trapOnce 2).csr.mstatusMieQ) ∧
    (∀ v, Clocked.NextAt (finished 0x80000000 trapOnce) 5 v →
      (run 0x80000000 trapOnce v).idExQ.pc = (run 0x80000000 trapOnce 2).idExQ.pc) ∧
    (run 0x80000000 trapOnce 6).csr.mstatusMieQ = (run 0x80000000 trapOnce 2).csr.mstatusMieQ ∧
    (run 0x80000000 trapOnce 6).csr.mstatusMpieQ = true := by
  refine trap_return (by decide) (by decide) (by decide +kernel) (by decide +kernel) ?_
  intro v h1 h2 hv
  obtain rfl | rfl : v = 3 ∨ v = 4 := by omega
  · exact absurd hv (by decide +kernel)
  · exact absurd hv (by decide +kernel)

end Core

end Rvntt
