import Rvntt.Counters
import Rvntt.Trained
set_option autoImplicit false

/-!
What a redirect is counted as. On code that nothing modifies a prediction is only ever
made for a transfer, so a redirect that is no misprediction is a trap or an MRET.
-/

namespace Rvntt.Predicted

open Core (ex exRedirect exStall exTrap)

def TargetTrap (s : Core.State) : Prop := (ex s).targetMisaligned = true

instance (s : Core.State) : Decidable (TargetTrap s) := inferInstanceAs (Decidable (_ = true))

theorem mret_not_trap {x : Ex} (hd : Core.Decoded x.q) (h : x.mret = true) : x.trap = false := by
  simp only [Ex.mret,Bool.and_eq_true] at h
  have hc : x.q.ctrl = {isMret := true} := (hd.ctrl ▸ decode_shape _).mret_eq h.2
  simp [Ex.trap,Ex.trapInfo,Ex.targetMisaligned,Ex.ctrlXfer,hc]

/-- A transfer to a misaligned address is also a misprediction, as no prediction
names such an address. -/
theorem OnImage.targetTrap_mispredict {img : Rom.Image} {s : Rom.State} (h : OnImage img s)
    (hm : TargetTrap s.soc.core) : (ex s.soc.core).mispredict = true := by
  have hx : (ex s.soc.core).ctrlXfer = true ∧ (ex s.soc.core).jumpTarget.getLsbD 1 = true := by
    simpa [TargetTrap,Ex.targetMisaligned] using hm
  have hv : s.soc.core.idExQ.valid = true := (Core.ctrlXfer_transfer hx.1).1
  have hq : (ex s.soc.core).q = s.soc.core.idExQ := rfl
  by_contra hp
  simp only [Ex.mispredict,hq,hv,hx.1,Bool.true_and,Bool.not_eq_true,Bool.or_eq_false_iff,
    bne_eq_false_iff_eq] at hp
  have ha := (h.exPred hv hp.1).2
  rw [hp.2,aligned_iff,hx.2] at ha
  cases ha.2

theorem OnImage.mispredict_transfer {img : Rom.Image} {s : Rom.State} (h : OnImage img s)
    (hp : (ex s.soc.core).mispredict = true) : s.soc.core.idExQ.ctrl.transfer = true := by
  have hv : s.soc.core.idExQ.valid = true := Core.mispredict_valid hp
  have hq : (ex s.soc.core).q = s.soc.core.idExQ := rfl
  cases hx : (ex s.soc.core).ctrlXfer with
  | true => exact (Core.ctrlXfer_transfer hx).2
  | false =>
    have hpt : s.soc.core.idExQ.predTaken = true := by
      simpa [Ex.mispredict,hq,hv,hx] using hp
    have ht := (h.exPred hv hpt).1
    rwa [TransferAt,← h.exWord hv,← (h.exDecoded hv).ctrl] at ht

/-- One cycle of the accounts. The mispredicted target of a transfer that traps is
counted on both sides. -/
theorem OnImage.balance {img : Rom.Image} {s : Rom.State} (h : OnImage img s) :
    (exRedirect s.soc.core).toNat+(ex s.soc.core).targetMisaligned.toNat =
      (Core.evMispredict s.soc.core).toNat+(exTrap s.soc.core).toNat+
        (ex s.soc.core).mret.toNat := by
  have hq : (ex s.soc.core).q = s.soc.core.idExQ := rfl
  cases hdn : Core.exDone s.soc.core with
  | false =>
    obtain ⟨ht,hm,_⟩ := Core.quiet_of_not_done h.exDecoded hdn
    have hx : (ex s.soc.core).ctrlXfer = false := by
      by_contra hx
      obtain ⟨hv,htr⟩ := Core.ctrlXfer_transfer (x := ex s.soc.core) (by simpa using hx)
      have hs : exStall s.soc.core = true := by simpa [Core.exDone,← hq,hv] using hdn
      have hmd := (Core.exStall_req hs).2
      rcases Core.decoded_transfer (h.exDecoded hv) htr with h | h | h
      all_goals rw [h] at hmd; cases hmd
    have hr : exRedirect s.soc.core = false := by
      by_contra hr
      rw [Core.exRedirect_done (by simpa using hr)] at hdn
      cases hdn
    have he : Core.evMispredict s.soc.core = false := by
      by_contra he
      simp only [Core.evMispredict,Bool.not_eq_false,Bool.and_eq_true,Bool.not_eq_true'] at he
      simp [exRedirect,he.1,he.2] at hr
    simp [hr,he,exTrap,ht,hm,Ex.targetMisaligned,hx]
  | true =>
    obtain ⟨hv,hs⟩ := Core.exDone_valid hdn
    have hd := h.exDecoded hv
    cases ht : s.soc.core.idExQ.ctrl.transfer with
    | true =>
      obtain ⟨htrap,hmret⟩ := Core.transfer_trap (x := ex s.soc.core) hv hd ht
      cases hm : (ex s.soc.core).targetMisaligned with
      | false => simp [exRedirect,Core.evMispredict,hs,exTrap,htrap,hmret,hm]
      | true =>
        have hp := h.targetTrap_mispredict hm
        simp [exRedirect,Core.evMispredict,Core.exMispredict,hs,exTrap,htrap,hmret,hm,hp]
    | false =>
      have hp : (ex s.soc.core).mispredict = false := by
        by_contra hp
        rw [h.mispredict_transfer (by simpa using hp)] at ht
        cases ht
      have hx : (ex s.soc.core).targetMisaligned = false := by
        by_contra hx
        simp only [Ex.targetMisaligned,Bool.not_eq_false,Bool.and_eq_true] at hx
        have := (Core.ctrlXfer_transfer hx.1).2
        rw [hq,ht] at this
        cases this
      cases hm : (ex s.soc.core).mret with
      | true =>
        have htrap := mret_not_trap hd hm
        simp [exRedirect,Core.evMispredict,Core.exMispredict,hs,exTrap,htrap,hm,hx,hp]
      | false => simp [exRedirect,Core.evMispredict,Core.exMispredict,hs,exTrap,hm,hx,hp]

section run

variable (img : Rom.Image) (resetPc : Word) (p : PowerUp) (x : Nat → Rom.In)

abbrev coreAt (t : Nat) : Core.State := (Rom.run img resetPc p x t).soc.core

def eventCount (event : BitVec 4) (t : Nat) : Nat :=
  ∑ u ∈ Finset.range t, ((Core.hpmEventC (coreAt img resetPc p x u)
    (coreIn (Rom.run img resetPc p x u).soc
      (Rom.feed img resetPc p x u))).getLsbD (event.toNat-1)).toNat

def exceptionCount (t : Nat) : Nat :=
  ∑ u ∈ Finset.range t, (exTrap (coreAt img resetPc p x u)).toNat

def mretCount (t : Nat) : Nat :=
  ∑ u ∈ Finset.range t, (ex (coreAt img resetPc p x u)).mret.toNat

/-- REDIRECT minus MISPREDICT is the trap-and-MRET term. -/
def Separates (t : Nat) : Prop :=
  (eventCount img resetPc p x hpmEvRedirect t : Int)-eventCount img resetPc p x hpmEvMispredict t =
    exceptionCount img resetPc p x t+mretCount img resetPc p x t

variable {img resetPc}

theorem account (hr : Aligned resetPc) (t : Nat) : eventCount img resetPc p x hpmEvRedirect t+
      ∑ u ∈ Finset.range t, (ex (coreAt img resetPc p x u)).targetMisaligned.toNat =
    eventCount img resetPc p x hpmEvMispredict t+exceptionCount img resetPc p x t+
      mretCount img resetPc p x t := by
  simp only [eventCount,exceptionCount,mretCount,← Finset.sum_add_distrib]
  refine Finset.sum_congr rfl fun u _ => ?_
  have hb := Core.hpmEventC_bits (coreAt img resetPc p x u)
    (coreIn (Rom.run img resetPc p x u).soc (Rom.feed img resetPc p x u))
  change (Bool.toNat (BitVec.getLsbD _ 2))+_ = (Bool.toNat (BitVec.getLsbD _ 3))+_+_
  rw [hb.2.2.1,hb.2.2.2]
  exact (run_onImage hr p x u).balance

/-- The counts separate the two up to a cycle exactly if no transfer has trapped on
its target by then. -/
theorem separates_iff (hr : Aligned resetPc) (t : Nat) : Separates img resetPc p x t ↔
    ∀ u, u < t → ¬TargetTrap (coreAt img resetPc p x u) := by
  have h := @account img resetPc p x hr t
  have hz : (∑ u ∈ Finset.range t, (ex (coreAt img resetPc p x u)).targetMisaligned.toNat) = 0 ↔
      ∀ u, u < t → ¬TargetTrap (coreAt img resetPc p x u) := by
    simp [Finset.sum_eq_zero_iff,TargetTrap]
  rw [← hz,Separates]
  omega

end run

/-- `ecall` at `0x80000000` and `mret` everywhere else. -/
def trapAndReturn : Rom.Image where
  word pc := if pc = 0x80000000 then 0x00000073 else 0x30200073

theorem separates_trapAndReturn : Separates trapAndReturn 0x80000000 {} (fun _ => {}) 20 :=
  (separates_iff {} _ (by decide) 20).mpr (by decide +kernel)

/-- `jal x0,2`. -/
def jumpToHalf : Rom.Image where
  word _ := 0x0020006F

/-- In cycle 2 the jump traps, and counts as a misprediction too. -/
theorem separates_fails_jumpToHalf :
    ¬Separates jumpToHalf 0x80000000 {} (fun _ => {}) 3 := by
  unfold Separates
  decide +kernel

end Rvntt.Predicted
