import Rvntt.TrapReturn
set_option autoImplicit false

/-!
How often an instruction finishes, whatever the ports return.
-/

namespace Rvntt.Core

theorem occ_le (insn : Word) : occ insn ≤ muldivDivCycles := by
  unfold occ
  split
  · split <;> decide
  · decide

/-- The worst case: a redirect and a division behind it. -/
def worstGap : Nat := muldivDivCycles+2

section run

variable (resetPc : Word) (x : Nat → In)

instance : DecidablePred (finished resetPc x) := fun t =>
  inferInstanceAs (Decidable (exDone (run resetPc x t) = true))

theorem finished_within {t : Nat} (h : finished resetPc x t) :
    ∃ u, Clocked.NextAt (finished resetPc x) t u ∧ u ≤ t+worstGap := by
  obtain ⟨u,hu,hut⟩ := finished_next resetPc x h
  refine ⟨u,hu,?_⟩
  have ho := occ_le (run resetPc x u).idExQ.insn
  have hb : bubbleCount (run resetPc x t) (run resetPc x u).idExQ.insn+
      2*redirectCount (run resetPc x t) ≤ 2 := by
    rw [bubbleCount,redirectCount]
    cases exRedirect (run resetPc x t) with
    | true => rw [if_neg (by simp)]; exact Nat.le_refl _
    | false => split <;> simp
  rw [worstGap]
  omega

theorem finishes_in_window (t : Nat) : ∃ u, t ≤ u ∧ u < t+worstGap ∧ finished resetPc x u := by
  refine Clocked.window_of_nextAt ?_ (fun _ => finished_within resetPc x) t
  obtain ⟨u,hu,hut,_⟩ := finished_first resetPc x
  have ho := occ_le (run resetPc x u).idExQ.insn
  exact ⟨u,by rw [worstGap]; omega,hu⟩

theorem commits_and_traps (t : Nat) :
    Nat.count (fun u => (commit (run resetPc x (u+2))).isSome = true) t+
      Nat.count (fun u => exTrap (run resetPc x u) = true) t =
      Nat.count (finished resetPc x) t := by
  induction t with
  | zero => rfl
  | succ t ih =>
    have htrap : exTrap (run resetPc x t) = true → finished resetPc x t :=
      exTrap_done (run_decoded resetPc x t)
    have hcommit : (commit (run resetPc x (t+2))).isSome = true ↔
        finished resetPc x t ∧ ¬exTrap (run resetPc x t) = true := by
      rw [commit_two,retires,Bool.and_eq_true,Bool.not_eq_true',Bool.not_eq_true]
      rfl
    rw [Nat.count_succ,Nat.count_succ,Nat.count_succ]
    by_cases hd : finished resetPc x t
    · by_cases ht : exTrap (run resetPc x t) = true
      · rw [if_neg fun h => (hcommit.mp h).2 ht,if_pos ht,if_pos hd]
        omega
      · rw [if_pos (hcommit.mpr ⟨hd,ht⟩),if_neg ht,if_pos hd]
        omega
    · rw [if_neg fun h => hd (hcommit.mp h).1,if_neg fun h => hd (htrap h),if_neg hd]
      exact ih

/-- The core cannot hang: on any bus and with any predictor, every 36 cycles of a run finish
an instruction, and each that finishes commits or traps. -/
theorem throughput (t n : Nat) :
    Nat.count (finished resetPc x) t+n ≤ Nat.count (finished resetPc x) (t+36*n) ∧
    Nat.count (fun u => (commit (run resetPc x (u+2))).isSome = true) t+
      Nat.count (fun u => exTrap (run resetPc x u) = true) t =
      Nat.count (finished resetPc x) t :=
  ⟨Clocked.count_window (finishes_in_window resetPc x) t n,commits_and_traps resetPc x t⟩

end run

end Rvntt.Core
