set_option autoImplicit false

/-!
Lists that grow at their end, where every element is allowed by those before it.
-/

/-- `A before x` says that `x` may come after `before`. -/
def Grown {α : Type} (A : List α → α → Prop) (l : List α) : Prop :=
  ∀ i x, l[i]? = some x → A (l.take i) x

namespace Grown

variable {α : Type} {A : List α → α → Prop} {l : List α}

theorem nil : Grown A [] := by
  intro i x h
  cases h

theorem snoc (hl : Grown A l) {x : α} (hx : A l x) : Grown A (l ++ [x]) := by
  intro i y hy
  rcases Nat.lt_trichotomy i l.length with hi | rfl | hi
  · rw [List.getElem?_append_left hi] at hy
    rw [List.take_append_of_le_length (Nat.le_of_lt hi)]
    exact hl i y hy
  · rw [List.getElem?_concat_length] at hy
    cases hy
    rw [List.take_left]
    exact hx
  · rw [List.getElem?_eq_none (by rw [List.length_append,List.length_singleton];omega)] at hy
    cases hy

theorem append (hl : Grown A l) {m : List α} (hm : ∀ before, ∀ x ∈ m, A before x) :
    Grown A (l ++ m) := by
  induction m generalizing l with
  | nil =>
    rw [List.append_nil]
    exact hl
  | cons x m ih =>
    rw [← List.singleton_append,← List.append_assoc]
    exact ih (hl.snoc (hm l x (.head _))) fun before y hy => hm before y (.tail _ hy)

theorem lt_of_not_mem (hl : Grown A l) {x y : α} (hxy : ∀ before, A before x → y ∉ before) {i j : Nat}
    (hi : l[i]? = some x) (hj : l[j]? = some y) (hne : i ≠ j) : i < j := by
  rcases Nat.lt_or_ge i j with h | h
  · exact h
  · refine absurd ?_ (hxy _ (hl i x hi))
    exact List.mem_of_getElem? ((List.getElem?_take_of_lt (by omega)).trans hj)

end Grown
