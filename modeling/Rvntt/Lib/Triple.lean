set_option autoImplicit false

/-!
Pre- and postconditions of computations on a state that can fail.
-/

namespace Hoare

variable {σ α β : Type} {E : Prop}

/-- From a state where `P` holds `m` comes to a result and a state where `Q` holds. It may
fail only if `E`. -/
def Triple (E : Prop) (P : σ → Prop) (m : StateT σ Option α) (Q : α → σ → Prop) : Prop :=
  ∀ s, P s → match m.run s with
    | none => E
    | some r => Q r.1 r.2

namespace Triple

variable {P P' : σ → Prop} {Q Q' : α → σ → Prop} {R : β → σ → Prop} {m : StateT σ Option α}

theorem ret (a : α) (h : ∀ s, P s → Q a s) : Triple E P (pure a) Q := fun s hs => h s hs

theorem bind {f : α → StateT σ Option β} (hm : Triple E P m Q) (hf : ∀ a, Triple E (Q a) (f a) R) :
    Triple E P (m >>= f) R := by
  intro s hs
  have hms := hm s hs
  rw [StateT.run_bind]
  cases h : m.run s with
  | none =>
    rw [h] at hms
    exact hms
  | some r =>
    rw [h] at hms
    exact hf r.1 r.2 hms

theorem conseq (hm : Triple E P' m Q') (hp : ∀ s, P s → P' s) (hq : ∀ a s, Q' a s → Q a s) :
    Triple E P m Q := by
  intro s hs
  have hms := hm s (hp s hs)
  cases h : m.run s with
  | none =>
    rw [h] at hms
    exact hms
  | some r =>
    rw [h] at hms
    exact hq _ _ hms

theorem pre {p : Prop} (h : p → Triple E P m Q) : Triple E (fun s => p ∧ P s) m Q :=
  fun s hs => h hs.1 s hs.2

theorem ite {c : Prop} [Decidable c] {m' : StateT σ Option α} (ht : Triple E P m Q)
    (hf : Triple E P m' Q) : Triple E P (if c then m else m') Q := by
  split
  · exact ht
  · exact hf

theorem update {f : σ → σ} {Q : Unit → σ → Prop} (h : ∀ s, P s → Q () (f s)) :
    Triple E P (modify f) Q := fun s hs => h s hs

theorem update_eq {f : σ → σ} {s : σ} :
    Triple E (fun t => t = s) (modify f) fun _ t => t = f s := update fun _ ht => congrArg f ht

theorem read : Triple E P (get : StateT σ Option σ) (fun a s => a = s ∧ P s) :=
  fun _ hs => ⟨rfl,hs⟩

theorem read_any {f : σ → StateT σ Option β} (h : ∀ a, Triple E P (f a) R) :
    Triple E P (get >>= f) R := read.bind fun a => conseq (h a) (fun _ hs => hs.2) fun _ _ hr => hr

/-- What every round of a loop preserves. -/
theorem loop {l : List α} {f : α → StateT σ Option Unit}
    (h : ∀ a ∈ l, Triple E P (f a) (fun _ => P)) : Triple E P (l.forM f) (fun _ => P) := by
  induction l with
  | nil => exact ret () fun _ hs => hs
  | cons a l ih =>
    exact bind (h a (.head _)) fun _ => ih fun b hb => h b (.tail _ hb)

theorem total (hm : Triple False P m Q) {s : σ} (hs : P s) : ∃ r, m.run s = some r ∧ Q r.1 r.2 := by
  have hms := hm s hs
  cases h : m.run s with
  | none =>
    rw [h] at hms
    exact hms.elim
  | some r =>
    rw [h] at hms
    exact ⟨r,rfl,hms⟩

theorem result (hm : Triple E P m Q) {s : σ} (hs : P s) {r : α × σ} (h : m.run s = some r) :
    Q r.1 r.2 := by
  have hms := hm s hs
  rw [h] at hms
  exact hms

end Triple

end Hoare
