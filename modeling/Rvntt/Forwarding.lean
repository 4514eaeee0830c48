import Rvntt.Operands
set_option autoImplicit false

/-!
The early forwarding decision, against the writes of the older instructions in
program order.
-/

namespace Rvntt

namespace Core

def written (l : List (BitVec 5 × Word)) (r : BitVec 5) : Word :=
  l.foldl (fun v w => if w.1 = r then w.2 else v) 0

theorem written_concat (l : List (BitVec 5 × Word)) (w : BitVec 5 × Word) (r : BitVec 5) :
    written (l ++ [w]) r = if w.1 = r then w.2 else written l r := by
  rw [written,List.foldl_append]
  rfl

variable (resetPc : Word) (x : Nat → In)

/-- The write of the instruction that leaves EX in cycle `t`; a load's value comes from the
data port one cycle later. -/
def writeAt (t : Nat) : Option (BitVec 5 × Word) :=
  let s := run resetPc x t
  if retires s && s.idExQ.ctrl.regWrite && s.idExQ.rdAddr != 0 then
    some (s.idExQ.rdAddr,
      ((ex s).latch (Muldiv.result s.muldiv)).result (x (t+1)).dmemRdata)
  else none

def olderWrites (t : Nat) : List (BitVec 5 × Word) := Clocked.events (writeAt resetPc x) t

theorem memWrites_run (t : Nat) (r : BitVec 5) : memWrites (run resetPc x (t+1)) r =
    (retires (run resetPc x t) && (run resetPc x t).idExQ.ctrl.regWrite &&
      (run resetPc x t).idExQ.rdAddr != 0 && (run resetPc x t).idExQ.rdAddr == r) := by
  have hm : (run resetPc x (t+1)).exMemQ = exMemNext (run resetPc x t) := rfl
  rw [memWrites,hm,exMemNext,retires,exDone]
  cases exTrap (run resetPc x t) <;> cases exStall (run resetPc x t) <;> simp [Ex.latch,ex]

theorem olderWrites_regs (t : Nat) (r : BitVec 5) :
    written (olderWrites resetPc x t) r = archRegs (run resetPc x t) (x t).dmemRdata r := by
  induction t with
  | zero => rfl
  | succ t ih =>
    have hrun : run resetPc x (t+1) = next (run resetPc x t) (x t) := rfl
    have hmw := memWrites_run resetPc x t r
    rw [hrun,archRegs_next,← hrun,hmw,← ih]
    cases hw : retires (run resetPc x t) && (run resetPc x t).idExQ.ctrl.regWrite &&
        (run resetPc x t).idExQ.rdAddr != 0 with
    | false =>
      have hn : writeAt resetPc x t = none := by simp only [writeAt,hw]; rfl
      rw [olderWrites,Clocked.events_succ_none hn]
      rfl
    | true =>
      have hret : exTrap (run resetPc x t) = false ∧ exStall (run resetPc x t) = false := by
        simp only [retires,exDone,Bool.and_eq_true,Bool.not_eq_true'] at hw
        exact ⟨hw.1.1.2,hw.1.1.1.2⟩
      have hm : (run resetPc x (t+1)).exMemQ =
          (ex (run resetPc x t)).latch (Muldiv.result (run resetPc x t).muldiv) := by
        change exMemNext _ = _
        rw [exMemNext,hret.1,hret.2]
        rfl
      have hs : writeAt resetPc x t = some ((run resetPc x t).idExQ.rdAddr,
          (run resetPc x (t+1)).exMemQ.result (x (t+1)).dmemRdata) := by
        simp only [writeAt,hw]
        rw [hm]
        rfl
      rw [olderWrites,Clocked.events_succ_some hs,written_concat]
      simp only [Bool.true_and,beq_iff_eq]
      rfl

/-- The instruction in EX in cycle `t` came there on the last edge. -/
def Entered (t : Nat) : Prop := t = 0 ∨ exStall (run resetPc x (t-1)) = false

/-- The decision made in ID is EX's own, and what it selects is the register's value. -/
structure Forwarded (t : Nat) : Prop where
  selA : (run resetPc x t).idExQ.fwdA = forward (exProducers (run resetPc x t))
    (run resetPc x t).idExQ.ctrl.usesRs1 (run resetPc x t).idExQ.rs1Addr
  selB : (run resetPc x t).idExQ.fwdB = forward (exProducers (run resetPc x t))
    (run resetPc x t).idExQ.ctrl.usesRs2 (run resetPc x t).idExQ.rs2Addr
  rs1 : Entered resetPc x t → (run resetPc x t).idExQ.ctrl.usesRs1 = true →
    exRs1Fwd (run resetPc x t) =
      written (olderWrites resetPc x t) (run resetPc x t).idExQ.rs1Addr
  rs2 : Entered resetPc x t → (run resetPc x t).idExQ.ctrl.usesRs2 = true →
    exRs2Fwd (run resetPc x t) =
      written (olderWrites resetPc x t) (run resetPc x t).idExQ.rs2Addr

theorem entered_inactive {t : Nat} (h : Entered resetPc x t) :
    (run resetPc x t).muldiv.activeQ = false := by
  cases t with
  | zero => rfl
  | succ t =>
    rcases h with h | h
    · cases h
    · exact (activeQ_next (run resetPc x t) (x t)).trans h

theorem forwarded (t : Nat) (hv : (run resetPc x t).idExQ.valid = true) :
    Forwarded resetPc x t := by
  have ho := run_operands resetPc x t
  refine ⟨(ho.a hv).sel,(ho.b hv).sel,fun he hu => ?_,fun he hu => ?_⟩
  · rw [olderWrites_regs]
    exact operand_correct ho (ho.a hv) (entered_inactive resetPc x he) hu _
  · rw [olderWrites_regs]
    exact operand_correct ho (ho.b hv) (entered_inactive resetPc x he) hu _

theorem forwarded_count : Forwarded 0x80000000
    (fun _ => ⟨0x00128293,0,false,⟨false,0,false⟩⟩) 4 :=
  forwarded _ _ 4 (by decide +kernel)

end Core

end Rvntt
