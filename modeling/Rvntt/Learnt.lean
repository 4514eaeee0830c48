import Rvntt.BpredRuns
import Rvntt.History
set_option autoImplicit false

/-!
The predictor in the core against `model/bpred.py`: whatever the instruction port
returns, it has learnt the transfers that finished in EX without trapping and
nothing else.
-/

namespace Rvntt.Predicted

open Core (ex exRedirect exDone exTrap frontStall)

def isTransfer (insn : Word) : Bool :=
  opcode insn == opcBranch || opcode insn == opcJal || opcode insn == opcJalr

structure Transfer where
  pc : Word
  insn : Word
  taken : Bool
  target : Word
  deriving DecidableEq, Repr

def transferDone (s : Core.State) : Option Transfer :=
  if exDone s && !exTrap s && isTransfer s.idExQ.insn then
    some ⟨s.idExQ.pc,s.idExQ.insn,(ex s).ctrlXfer,(ex s).jumpTarget⟩
  else none

def learn (b : Ref.BPred) (e : Transfer) : Ref.BPred := b.update e.pc e.insn e.taken e.target

theorem transfer_opcode {insn : Word} (h : (decode insn).transfer = true) :
    isTransfer insn = true := by
  have hs := decode_shape insn
  generalize decode insn = c at h hs
  cases hs with
  | jal ho => simp [isTransfer,ho]
  | jalr ho => simp [isTransfer,ho]
  | branch ho => simp [isTransfer,ho]
  | _ => cases h

theorem decode_transfer {insn : Word} (h : isTransfer insn = true)
    (hi : (decode insn).isIllegal = false) : (decode insn).transfer = true := by
  simp only [isTransfer,Bool.or_eq_true,beq_iff_eq] at h
  rcases h with (ho | ho) | ho
  · have ha : decodeArm insn = decodeBranch (funct3 insn) := by
      unfold decodeArm
      simp only [ho]
      rfl
    rw [decode,ha,decodeBranch] at hi ⊢
    split at hi
    · rw [if_pos ‹_›]
      rfl
    · cases hi
  · have ha : decodeArm insn = ctrlJal := by
      unfold decodeArm
      simp only [ho]
      rfl
    rw [decode,ha]
    rfl
  · have ha : decodeArm insn = decodeJalr (funct3 insn) := by
      unfold decodeArm
      simp only [ho]
      rfl
    rw [decode,ha,decodeJalr] at hi ⊢
    split at hi
    · rw [if_pos ‹_›]
      rfl
    · cases hi

theorem resolved_valid {s : Core.State} (hd : s.idExQ.valid = true → Core.Decoded s.idExQ) :
    (resolved s).valid = true ↔
      exDone s = true ∧ exTrap s = false ∧ isTransfer s.idExQ.insn = true := by
  have h : (resolved s).valid = (exDone s && !exTrap s && s.idExQ.ctrl.transfer) := by
    rw [resolved,Core.exBpUpd,exDone]
    rfl
  rw [h,Bool.and_eq_true,Bool.and_eq_true,Bool.not_eq_true',and_assoc]
  refine and_congr_right fun hdone => and_congr_right fun ht => ?_
  have hv := (Core.exDone_valid hdone).1
  rw [(hd hv).ctrl]
  refine ⟨transfer_opcode,fun hx => decode_transfer hx ?_⟩
  by_contra hi
  rw [← (hd hv).ctrl,Bool.not_eq_false] at hi
  have : (ex s).trap = true := by simp [Ex.trap,Ex.trapInfo,ex,hv,hi]
  rw [exTrap,this] at ht
  cases ht

theorem transferDone_none {s : Core.State} (hd : s.idExQ.valid = true → Core.Decoded s.idExQ)
    (h : transferDone s = none) : (resolved s).valid = false := by
  rw [← Bool.not_eq_true,resolved_valid hd]
  rintro ⟨h1,h2,h3⟩
  simp [transferDone,h1,h2,h3] at h

theorem transferDone_some {s : Core.State} (hd : s.idExQ.valid = true → Core.Decoded s.idExQ)
    (ha : s.idExQ.valid = true → Aligned s.idExQ.pc) {e : Transfer}
    (h : transferDone s = some e) :
    Ref.SameUpdate (resolved s) e.pc e.insn e.taken e.target ∧ s.idExQ.valid = true ∧
      e.pc = s.idExQ.pc := by
  rw [transferDone] at h
  split at h
  · rename_i hc
    obtain rfl := Option.some.inj h
    simp only [Bool.and_eq_true,Bool.not_eq_true'] at hc
    obtain ⟨⟨hdone,ht⟩,hx⟩ := hc
    have hv := (Core.exDone_valid hdone).1
    have hr := (resolved_valid hd).mpr ⟨hdone,ht,hx⟩
    have htr : s.idExQ.ctrl.transfer = true := by
      simp only [resolved,Core.exBpUpd,Bool.and_eq_true] at hr
      exact hr.2
    refine ⟨⟨hr,rfl,bpKind_eq (x := ex s) (hd hv) htr,rfl,fun hx => ⟨rfl,?_⟩⟩,hv,rfl⟩
    refine Core.jumpTarget_aligned (x := ex s) (hd hv) (ha hv) hx ?_
    rw [← (Core.transfer_trap (x := ex s) hv (hd hv) htr).1]
    exact ht
  · cases h

section run

variable (resetPc : Word) (p : PowerUp) (x : Nat → In)

def transfers (t : Nat) : List Transfer :=
  Clocked.events (fun u => transferDone (run resetPc p x u).core) t

/-- The model after the same transfers. -/
def learnt (t : Nat) : Ref.BPred := (transfers resetPc p x t).foldl learn {}

variable {resetPc p x}

theorem archPc_aligned (hr : Aligned resetPc) (y : Nat → Core.In) (t : Nat) :
    Aligned (Core.archPc resetPc y t) := by
  induction t with
  | zero => exact hr
  | succ t ih =>
    rw [Core.archPc,Core.pathNext]
    split
    · rename_i hd
      have hv := (Core.exDone_valid hd).1
      refine Core.redirectTarget_aligned (x := ex _) hv (Core.run_decoded resetPc y t hv) ?_
      change Aligned (Core.run resetPc y t).idExQ.pc
      rw [(Core.run_flow resetPc y t).exPc hv]
      exact ih
    · exact ih

theorem exPc_eq {t : Nat} (hv : (run resetPc p x t).core.idExQ.valid = true) :
    (run resetPc p x t).core.idExQ.pc = Core.archPc resetPc (ports resetPc p x) t := by
  rw [run_core] at hv ⊢
  exact (Core.run_flow resetPc _ t).exPc hv

theorem mirrors_tables {b : Ref.BPred} {s t : Bpred.State 8 3} (h : Ref.Mirrors b s)
    (hst : Bpred.SameTables s t) : Ref.Mirrors b t where
  btb i := by
    rw [hst.btbValid,hst.btb]
    exact h.btb i
  sp := h.sp.trans hst.rasSp.symm
  count := by rw [hst.rasCnt]; exact h.count
  bound := h.bound
  stack := by rw [hst.stack_eq]; exact h.stack

theorem run_mirrors (hr : Aligned resetPc) (t : Nat) :
    Ref.Mirrors (learnt resetPc p x t) (run resetPc p x t).bpred := by
  induction t with
  | zero => exact Ref.mirrors_reset _ _
  | succ t ih =>
    have hd := run_decoded resetPc p x t
    have ha : (run resetPc p x t).core.idExQ.valid = true →
        Aligned (run resetPc p x t).core.idExQ.pc := fun hv => by
      rw [exPc_eq hv]
      exact archPc_aligned hr _ t
    refine mirrors_tables ?_
      (Bpred.next_tables (run resetPc p x t).bpred (bpredIn (run resetPc p x t) (x t)))
    change Ref.Mirrors _ (Bpred.update _ (resolved (run resetPc p x t).core))
    cases hx : transferDone (run resetPc p x t).core with
    | none =>
      rw [learnt,transfers,Clocked.events_succ_none hx,
        update_of_not_valid _ (transferDone_none hd hx)]
      exact ih
    | some e =>
      rw [learnt,transfers,Clocked.events_succ_some hx,List.foldl_append]
      exact Ref.update_mirrors ih (transferDone_some hd ha hx).1

theorem quiet_tables {t : Nat} (h : transferDone (run resetPc p x t).core = none) :
    Bpred.SameTables (run resetPc p x t).bpred (run resetPc p x (t+1)).bpred := by
  have hn := Bpred.next_tables (run resetPc p x t).bpred (bpredIn (run resetPc p x t) (x t))
  have hv := transferDone_none (run_decoded resetPc p x t) h
  rwa [show (bpredIn (run resetPc p x t) (x t)).upd = resolved (run resetPc p x t).core from rfl,
    update_of_not_valid _ hv] at hn

theorem transferDone_pc {t : Nat} {e : Transfer}
    (h : transferDone (run resetPc p x t).core = some e) :
    e.pc = Core.archPc resetPc (ports resetPc p x) t := by
  rw [transferDone] at h
  split at h
  · rename_i hc
    obtain rfl := Option.some.inj h
    simp only [Bool.and_eq_true] at hc
    exact exPc_eq (Core.exDone_valid hc.1.1).1
  · cases h

theorem registered_predict (hr : Aligned resetPc) {t : Nat}
    (hf : frontStall (run resetPc p x t).core (ports resetPc p x t) = false)
    (hx : exRedirect (run resetPc p x t).core = false) :
    Ref.asPair (held (run resetPc p x (t+1))) =
      (learnt resetPc p x t).predict (lookupPc (run resetPc p x t)) := by
  rw [Ref.predict_eq (run_mirrors hr t),← lookup_next (i := x t) hf hx]
  rfl

/-- In every cycle of every run the predictor is what the model is after the transfers
that have finished without trapping, in program order; a cycle without one leaves it
alone; and a lookup that is neither held nor flushed registers the model's prediction. -/
theorem predictor_history (hr : Aligned resetPc) (t : Nat) :
    let s := run resetPc p x t
    let b := learnt resetPc p x t
    Ref.Mirrors b s.bpred ∧
    (∀ e, transferDone s.core = some e →
      e.pc = Core.archPc resetPc (ports resetPc p x) t) ∧
    (transferDone s.core = none → Bpred.SameTables s.bpred (run resetPc p x (t+1)).bpred) ∧
    (frontStall s.core (ports resetPc p x t) = false → exRedirect s.core = false →
      (run resetPc p x (t+1)).bpred.predTakenQ = (b.predict (lookupPc s)).1 ∧
      ((run resetPc p x (t+1)).bpred.predTakenQ = true →
        (run resetPc p x (t+1)).bpred.predTargetQ = (b.predict (lookupPc s)).2)) := by
  intro s b
  refine ⟨run_mirrors hr t,fun e => transferDone_pc,quiet_tables,fun hf hx => ?_⟩
  have h := registered_predict (p := p) (x := x) hr hf hx
  rw [held] at h
  change Ref.asPair _ = b.predict (lookupPc s) at h
  rw [← h]
  cases ht : (run resetPc p x (t+1)).bpred.predTakenQ with
  | true => exact ⟨rfl,fun _ => rfl⟩
  | false => exact ⟨rfl,fun h => absurd h Bool.false_ne_true⟩

end run

/-- By the fourth cycle the first call has resolved. -/
theorem predictor_history_callLoad :
    (run 0x80000000 {} (Rom.feed callLoad 0x80000000 {} fun _ => {}) 4).bpred.rasCntQ.toNat = 1 :=
  (predictor_history (p := {}) (x := Rom.feed callLoad 0x80000000 {} fun _ => {})
    (show Aligned 0x80000000 by decide) 4).1.count.symm.trans (by decide +kernel)

end Rvntt.Predicted
