import Mathlib.Data.Int.Cast.Lemmas
import Mathlib.Data.List.Range
import Mathlib.Logic.Function.Basic
import Mathlib.Tactic.Abel

/-!
A bounded stack kept in a ring of cells: a stack pointer that wraps around and a
count of live entries. A push into a full ring forgets the oldest entry.
-/

set_option autoImplicit false

namespace RingStack

variable {ι α : Type} [AddCommGroupWithOne ι]

/-- The live entries, newest first. -/
def toList (data : ι → α) (sp : ι) (n : Nat) : List α :=
  (List.range n).map fun k : Nat => data (sp-1-(k : ι))

@[simp] theorem length_toList (data : ι → α) (sp : ι) (n : Nat) :
    (toList data sp n).length = n := by
  simp [toList]

@[simp] theorem toList_zero (data : ι → α) (sp : ι) : toList data sp 0 = [] := rfl

theorem toList_succ (data : ι → α) (sp : ι) (n : Nat) :
    toList data sp (n+1) = data (sp-1) :: toList data (sp-1) n := by
  simp only [toList,List.range_succ_eq_map,List.map_cons,List.map_map,Nat.cast_zero,sub_zero]
  refine congrArg _ (List.map_congr_left fun k _ => ?_)
  rw [Function.comp_apply,Nat.cast_succ]
  congr 1
  abel

theorem toList_pop (data : ι → α) (sp : ι) (n : Nat) :
    toList data (sp-1) (n-1) = (toList data sp n).tail := by
  cases n with
  | zero => rfl
  | succ n => rw [toList_succ]; rfl

theorem head?_toList (data : ι → α) (sp : ι) (n : Nat) :
    (toList data sp n).head? = if n = 0 then none else some (data (sp-1)) := by
  cases n with
  | zero => rfl
  | succ n => rw [toList_succ]; rfl

variable [DecidableEq ι] {cap : Nat}

theorem toList_push (hcap : ∀ k : Nat, 0 < k → k < cap → (k : ι) ≠ 0) (hpos : 0 < cap)
    (data : ι → α) (sp : ι) (a : α) {n : Nat} (hn : n ≤ cap) :
    toList (Function.update data sp a) (sp+1) (min (n+1) cap) =
      (a :: toList data sp n).take cap := by
  obtain ⟨m,rfl⟩ : ∃ m, cap = m+1 := ⟨cap-1,by omega⟩
  rw [Nat.add_min_add_right,toList_succ,add_sub_cancel_right,Function.update_self,
    List.take_succ_cons]
  refine congrArg _ (List.ext_getElem (by simp [min_comm]) fun k h1 h2 => ?_)
  -- the new cell is not one of the `min n m` older ones
  have hk : k+1 < m+1 := by simp only [length_toList] at h1; omega
  have hne : sp-1-(k : ι) ≠ sp := by
    intro h
    refine hcap (k+1) (Nat.succ_pos k) hk ?_
    rw [sub_sub,sub_eq_self] at h
    rw [Nat.cast_succ,add_comm,h]
  simp [toList,Function.update_of_ne hne]

end RingStack
