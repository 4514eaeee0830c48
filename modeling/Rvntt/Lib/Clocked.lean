import Mathlib.Algebra.BigOperators.Intervals
import Mathlib.Data.Nat.Nth
import Mathlib.Order.Interval.Finset.Nat

/-!
Synchronous machines: a state, one transition per clock edge, and a stream of
inputs. The rules below are the only inductions over time that a development
about such a machine needs: an invariant, a ledger of what each cycle costs, and the
times at which something happens.
-/

set_option autoImplicit false

namespace Clocked

structure Machine (σ ι : Type) where
  init : σ
  next : σ → ι → σ

variable {σ ι α : Type}

def Machine.run (m : Machine σ ι) (x : Nat → ι) : Nat → σ
  | 0 => m.init
  | t+1 => m.next (m.run x t) (x t)

@[simp] theorem Machine.run_zero (m : Machine σ ι) (x : Nat → ι) : m.run x 0 = m.init := rfl

theorem Machine.run_succ (m : Machine σ ι) (x : Nat → ι) (t : Nat) :
    m.run x (t+1) = m.next (m.run x t) (x t) := rfl

theorem Machine.invariant (m : Machine σ ι) (P : σ → Prop) (h0 : P m.init)
    (hs : ∀ s i, P s → P (m.next s i)) (x : Nat → ι) (t : Nat) : P (m.run x t) := by
  induction t with
  | zero => exact h0
  | succ t ih => exact hs _ _ ih

/-- A component sees the run of its own machine, on what the whole feeds it. -/
theorem Machine.run_part {τ κ : Type} (m : Machine σ ι) (n : Machine τ κ) (f : σ → τ)
    (g : σ → ι → κ) (h0 : f m.init = n.init)
    (hs : ∀ s i, f (m.next s i) = n.next (f s) (g s i)) (x : Nat → ι) (t : Nat) :
    f (m.run x t) = n.run (fun u => g (m.run x u) (x u)) t := by
  induction t with
  | zero => exact h0
  | succ t ih => rw [m.run_succ,n.run_succ,hs,ih]

/-- What a run has emitted before cycle `t`, oldest first. -/
def events (f : Nat → Option α) : Nat → List α
  | 0 => []
  | t+1 => events f t ++ (f t).toList

@[simp] theorem events_zero (f : Nat → Option α) : events f 0 = [] := rfl

theorem events_succ (f : Nat → Option α) (t : Nat) :
    events f (t+1) = events f t ++ (f t).toList := rfl

theorem events_succ_none {f : Nat → Option α} {t : Nat} (h : f t = none) :
    events f (t+1) = events f t := by
  simp [events_succ,h]

theorem events_succ_some {f : Nat → Option α} {t : Nat} {a : α} (h : f t = some a) :
    events f (t+1) = events f t ++ [a] := by
  simp [events_succ,h]

theorem mem_events {f : Nat → Option α} {t : Nat} {a : α} (h : a ∈ events f t) :
    ∃ u < t, f u = some a := by
  induction t with
  | zero => cases h
  | succ t ih =>
    rcases List.mem_append.mp h with h | h
    · obtain ⟨u,hu,hf⟩ := ih h
      exact ⟨u,Nat.lt_succ_of_lt hu,hf⟩
    · exact ⟨t,Nat.lt_succ_self t,Option.mem_toList.mp h⟩

theorem events_eq_nil {f : Nat → Option α} {t : Nat} (h : ∀ u < t, f u = none) :
    events f t = [] := by
  induction t with
  | zero => rfl
  | succ t ih =>
    rw [events_succ_none (h t (Nat.lt_succ_self t))]
    exact ih fun u hu => h u (by omega)

theorem events_add (f : Nat → Option α) (t u : Nat) :
    events f (t+u) = events f t ++ events (fun v => f (t+v)) u := by
  induction u with
  | zero => simp
  | succ u ih => rw [← Nat.add_assoc,events_succ,ih,events_succ,List.append_assoc]

theorem events_single {f : Nat → Option α} {t u : Nat} {a : α} (hu : f u = some a) (hut : u < t)
    (h : ∀ v < t, v ≠ u → f v = none) : events f t = [a] := by
  obtain ⟨k,rfl⟩ : ∃ k, t = u+1+k := ⟨t-(u+1),by omega⟩
  have hbefore : events f u = [] := events_eq_nil fun v hv => h v (by omega) (by omega)
  have hafter : events (fun v => f (u+1+v)) k = [] :=
    events_eq_nil fun v hv => h (u+1+v) (by omega) (by omega)
  rw [events_add,events_succ_some hu,hbefore,hafter]
  rfl

def delayed (n : Nat) (f : Nat → Option α) (t : Nat) : Option α :=
  if t < n then none else f (t-n)

@[simp] theorem delayed_add (n : Nat) (f : Nat → Option α) (t : Nat) :
    delayed n f (t+n) = f t := by
  rw [delayed,if_neg (by omega),Nat.add_sub_cancel]

theorem delayed_eq_some {n : Nat} {f : Nat → Option α} {t : Nat} {a : α} :
    delayed n f t = some a ↔ ∃ u, t = u+n ∧ f u = some a := by
  constructor
  · intro h
    by_cases ht : t < n
    · rw [delayed,if_pos ht] at h
      cases h
    · rw [delayed,if_neg ht] at h
      exact ⟨t-n,by omega,h⟩
  · rintro ⟨u,rfl,h⟩
    rw [delayed_add,h]

theorem delayed_delayed (m n : Nat) (f : Nat → Option α) :
    delayed m (delayed n f) = delayed (m+n) f := by
  funext t
  change (if t < m then none else if t-m < n then none else f (t-m-n)) =
    if t < m+n then none else f (t-(m+n))
  by_cases h1 : t < m
  · rw [if_pos h1,if_pos (by omega)]
  by_cases h2 : t-m < n
  · rw [if_neg h1,if_pos h2,if_pos (by omega)]
  · rw [if_neg h1,if_neg h2,if_neg (by omega),Nat.sub_sub]

theorem events_delayed (n : Nat) (f : Nat → Option α) (t : Nat) :
    events (delayed n f) (t+n) = events f t := by
  have hn : events (delayed n f) n = [] := events_eq_nil fun u hu => if_pos hu
  rw [Nat.add_comm,events_add,hn,List.nil_append]
  congr 1
  funext v
  rw [Nat.add_comm,delayed_add]

/-- A stream that speaks only in the cycles of `p` says what another one says, there. -/
theorem events_count (p : Nat → Prop) [DecidablePred p] {f g : Nat → Option α}
    (hp : ∀ t, p t → f t = g (Nat.count p t)) (hn : ∀ t, ¬p t → f t = none) (t : Nat) :
    events f t = events g (Nat.count p t) := by
  induction t with
  | zero => rfl
  | succ t ih =>
    by_cases h : p t
    · rw [events_succ,Nat.count_succ_eq_succ_count_iff.mpr h,events_succ,ih,hp t h]
    · rw [events_succ_none (hn t h),Nat.count_succ_eq_count_iff.mpr h,ih]

theorem events_prefix (f : Nat → Option α) {t u : Nat} (h : t ≤ u) :
    events f t <+: events f u := by
  induction u with
  | zero => simp [Nat.le_zero.mp h]
  | succ u ih =>
    rcases Nat.lt_or_ge t (u+1) with hlt | hge
    · exact (ih (by omega)).trans (List.prefix_append _ _)
    · rw [Nat.le_antisymm h hge]

theorem events_sublist {f g : Nat → Option α} (h : ∀ t, f t = none ∨ f t = g t) (t : Nat) :
    (events f t).Sublist (events g t) := by
  induction t with
  | zero => exact .slnil
  | succ t ih =>
    rw [events_succ,events_succ]
    refine ih.append ?_
    rcases h t with h | h
    · rw [h]
      exact List.nil_sublist _
    · rw [h]

theorem length_events (f : Nat → Option α) (t : Nat) :
    (events f t).length = ∑ u ∈ Finset.range t, (f u).isSome.toNat := by
  induction t with
  | zero => rfl
  | succ t ih =>
    rw [events_succ,List.length_append,ih,Finset.sum_range_succ]
    cases f t <;> rfl

/-- The ledger: if every cycle is paid for by its weight or by a change of the
debt `φ`, a window of cycles costs the sum of its weights. -/
theorem ledger (w φ : Nat → Nat) (h : ∀ t, 1+φ (t+1) = w t+φ t) {r f : Nat} (hrf : r ≤ f) :
    (f-r)+φ f = (∑ t ∈ Finset.Ico r f, w t)+φ r := by
  induction f with
  | zero => simp [Nat.le_zero.mp hrf]
  | succ f ih =>
    rcases Nat.lt_or_ge r (f+1) with hlt | hge
    · have hf := ih (by omega)
      have hh := h f
      rw [Finset.sum_Ico_succ_top (by omega)]
      omega
    · simp [Nat.le_antisymm hrf hge]

theorem accumulate {M : Type} [AddCommMonoid M] (c : Nat → M) (w : Nat → M) {r f : Nat}
    (hrf : r ≤ f) (h : ∀ t, r ≤ t → t < f → c (t+1) = c t+w t) :
    c f = c r+∑ t ∈ Finset.Ico r f, w t := by
  induction f with
  | zero => simp [Nat.le_zero.mp hrf]
  | succ f ih =>
    rcases Nat.lt_or_ge r (f+1) with hlt | hge
    · rw [Finset.sum_Ico_succ_top (by omega),h f (by omega) (by omega),
        ih (by omega) (fun t h1 h2 => h t h1 (by omega)),add_assoc]
    · simp [Nat.le_antisymm hrf hge]

/-! ### Occurrences -/

structure NextAt (p : Nat → Prop) (t u : Nat) : Prop where
  holds : p u
  later : t < u
  quiet : ∀ v, t < v → v < u → ¬p v

theorem NextAt.unique {p : Nat → Prop} {t u v : Nat} (hu : NextAt p t u) (hv : NextAt p t v) :
    u = v := by
  rcases Nat.lt_trichotomy u v with h | h | h
  · exact absurd hu.holds (hv.quiet u hu.later h)
  · exact h
  · exact absurd hv.holds (hu.quiet v hv.later h)

theorem infinite_of_nextAt {p : Nat → Prop} (h0 : ∃ t, p t)
    (hs : ∀ t, p t → ∃ u, NextAt p t u) : (Set.ofPred p).Infinite := by
  have hgt : ∀ n, ∃ t, p t ∧ n < t := by
    intro n
    induction n with
    | zero =>
      obtain ⟨t,ht⟩ := h0
      obtain ⟨u,hu⟩ := hs t ht
      exact ⟨u,hu.holds,by have h := hu.later; omega⟩
    | succ n ih =>
      obtain ⟨t,ht,hn⟩ := ih
      obtain ⟨u,hu⟩ := hs t ht
      exact ⟨u,hu.holds,by have h := hu.later; omega⟩
  exact Set.infinite_of_forall_exists_gt hgt

theorem nextAt_nth {p : Nat → Prop} (hp : (Set.ofPred p).Infinite) (k : Nat) :
    NextAt p (Nat.nth p k) (Nat.nth p (k+1)) where
  holds := Nat.nth_mem_of_infinite hp (k+1)
  later := Nat.nth_strictMono hp (Nat.lt_succ_self k)
  quiet v hlt hgt hv := by
    have h := Nat.le_nth_of_lt_nth_succ hgt hv
    omega

/-- When the first occurrence and each next one come within `w`, every `w` cycles have one. -/
theorem window_of_nextAt {p : Nat → Prop} {w : Nat} (h0 : ∃ u < w, p u)
    (hs : ∀ t, p t → ∃ u, NextAt p t u ∧ u ≤ t+w) (t : Nat) : ∃ u, t ≤ u ∧ u < t+w ∧ p u := by
  induction t with
  | zero =>
    obtain ⟨u,hu,hp⟩ := h0
    exact ⟨u,Nat.zero_le u,by omega,hp⟩
  | succ t ih =>
    obtain ⟨u,h1,h2,hp⟩ := ih
    rcases Nat.lt_or_ge t u with h | h
    · exact ⟨u,h,by omega,hp⟩
    · obtain rfl : u = t := by omega
      obtain ⟨v,hv,hw⟩ := hs u hp
      exact ⟨v,hv.later,by omega,hv.holds⟩

theorem count_window {p : Nat → Prop} [DecidablePred p] {w : Nat}
    (h : ∀ t, ∃ u, t ≤ u ∧ u < t+w ∧ p u) (t n : Nat) :
    Nat.count p t+n ≤ Nat.count p (t+w*n) := by
  induction n with
  | zero => exact Nat.le_refl _
  | succ n ih =>
    obtain ⟨u,h1,h2,hp⟩ := h (t+w*n)
    have hlt : Nat.count p (t+w*n) < Nat.count p (t+w*(n+1)) :=
      Nat.lt_of_le_of_lt (Nat.count_monotone p h1)
        (Nat.count_strict_mono hp (by rw [Nat.mul_succ]; omega))
    omega

/-- Two runs in step. While `R` holds the two see an event in the same cycles, so an
agreement of the `k`-th event with the `k`-th is an agreement cycle by cycle. -/
theorem lockstep {p q : Nat → Prop} (R : Nat → Prop) (A : Nat → Nat → Prop) (h0 : R 0)
    (hpq : ∀ t, R t → (p t ↔ q t)) (hA : ∀ k, A (Nat.nth p k) (Nat.nth q k))
    (hs : ∀ t, R t → (p t → A t t) → R (t+1)) (t : Nat) : R t ∧ (p t → A t t) := by
  classical
  have hagree : ∀ t, R t → Nat.count p t = Nat.count q t → p t → A t t := by
    intro t hr hc hp
    have hk := hA (Nat.count p t)
    rwa [Nat.nth_count hp,hc,Nat.nth_count ((hpq t hr).mp hp)] at hk
  have h : ∀ t, R t ∧ Nat.count p t = Nat.count q t := by
    intro t
    induction t with
    | zero => exact ⟨h0,by simp⟩
    | succ t ih =>
      obtain ⟨hr,hc⟩ := ih
      refine ⟨hs t hr (hagree t hr hc),?_⟩
      rw [Nat.count_succ,Nat.count_succ,hc]
      simp only [hpq t hr]
  exact ⟨(h t).1,hagree t (h t).1 (h t).2⟩

end Clocked
