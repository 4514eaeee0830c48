import Mathlib.Logic.Function.Iterate
import Mathlib.Tactic.Ring

/-!
Radix-2 restoring division in two registers of `w` bits: the dividend leaves the
quotient register at the top while the quotient enters it at the bottom.
-/

set_option autoImplicit false

namespace RestoringDiv

structure State where
  rem : Nat
  quo : Nat

/-- The remainder with the next bit of the dividend below it. -/
def shifted (w : Nat) (s : State) : Nat := 2*s.rem+s.quo/2^(w-1)

def step (w d : Nat) (s : State) : State :=
  if d ≤ shifted w s then ⟨shifted w s-d,2*(s.quo % 2^(w-1))+1⟩
  else ⟨shifted w s,2*(s.quo % 2^(w-1))⟩

/-- After `k` steps: `hi` are the bits of the dividend seen so far, `lo` the others,
and `q` is the quotient of `hi`. -/
def Inv (w d a k : Nat) (s : State) : Prop :=
  ∃ hi lo q, a = hi*2^(w-k)+lo ∧ lo < 2^(w-k) ∧ hi = q*d+s.rem ∧ s.rem < d ∧
    s.quo = lo*2^k+q ∧ q < 2^k

variable {w d a k : Nat} {s : State}

theorem inv_zero (hd : 0 < d) (ha : a < 2^w) : Inv w d a 0 ⟨0,a⟩ :=
  ⟨0,a,0,by simp,by simpa using ha,by simp,hd,by simp,by simp⟩

theorem Inv.rem_lt (h : Inv w d a k s) : s.rem < d := by
  obtain ⟨_,_,_,_,_,_,hr,_⟩ := h
  exact hr

theorem Inv.step (h : Inv w d a k s) (hk : k < w) : Inv w d a (k+1) (step w d s) := by
  obtain ⟨hi,lo,q,ha,hlo,hhi,hr,hq,hqk⟩ := h
  obtain ⟨m,rfl⟩ : ∃ m, w = m+(k+1) := ⟨w-(k+1),by omega⟩
  rw [show m+(k+1)-k = m+1 by omega] at ha hlo
  have hp : 0 < 2^m := Nat.two_pow_pos m
  obtain ⟨b,lo',hsplit,hlo'⟩ : ∃ b lo', lo = b*2^m+lo' ∧ lo' < 2^m :=
    ⟨lo/2^m,lo % 2^m,(Nat.div_add_mod' lo (2^m)).symm,Nat.mod_lt _ hp⟩
  have hb : b < 2 := by
    by_contra hb
    have : 2*2^m ≤ b*2^m := Nat.mul_le_mul_right _ (by omega)
    rw [Nat.pow_succ] at hlo
    omega
  -- what is left of the dividend stays clear of the bit that leaves
  have hlow : lo'*2^k+q < 2^(m+k) := by
    have : (lo'+1)*2^k ≤ 2^m*2^k := Nat.mul_le_mul_right _ hlo'
    rw [Nat.pow_add]
    rw [Nat.add_mul] at this
    omega
  have hquo : s.quo = b*2^(m+k)+(lo'*2^k+q) := by
    rw [hq,hsplit,Nat.pow_add]
    ring
  have hw : m+(k+1)-1 = m+k := by omega
  have htop : s.quo/2^(m+k) = b := by
    rw [hquo,Nat.add_comm,Nat.add_mul_div_right _ _ (Nat.two_pow_pos _),Nat.div_eq_of_lt hlow,
      Nat.zero_add]
  have hrest : s.quo % 2^(m+k) = lo'*2^k+q := by
    rw [hquo,Nat.add_comm,Nat.add_mul_mod_self_right,Nat.mod_eq_of_lt hlow]
  have hsh : shifted (m+(k+1)) s = 2*s.rem+b := by rw [shifted,hw,htop]
  have ha' : a = (2*hi+b)*2^(m+(k+1)-(k+1))+lo' := by
    rw [ha,hsplit,Nat.add_sub_cancel,Nat.pow_succ]
    ring
  have hp2 : 2^(k+1) = 2*2^k := by rw [Nat.pow_succ,Nat.mul_comm]
  refine ⟨2*hi+b,lo',if d ≤ 2*s.rem+b then 2*q+1 else 2*q,ha',by simpa using hlo',?_⟩
  rw [RestoringDiv.step,hsh,hw,hrest]
  split
  · refine ⟨?_,?_,?_,by omega⟩
    · have : (2*q+1)*d = 2*(q*d)+d := by ring
      simp only
      omega
    · simp only
      omega
    · simp only [hp2]
      ring
  · refine ⟨?_,?_,?_,by omega⟩
    · have : 2*q*d = 2*(q*d) := by ring
      simp only
      omega
    · simp only
      omega
    · simp only [hp2]
      ring

theorem inv_iterate (hd : 0 < d) (ha : a < 2^w) (hk : k ≤ w) :
    Inv w d a k ((step w d)^[k] ⟨0,a⟩) := by
  induction k with
  | zero => exact inv_zero hd ha
  | succ k ih =>
    rw [Function.iterate_succ_apply']
    exact (ih (by omega)).step (by omega)

theorem Inv.final (h : Inv w d a w s) : s.quo = a/d ∧ s.rem = a % d := by
  obtain ⟨hi,lo,q,ha,hlo,hhi,hr,hq,_⟩ := h
  rw [Nat.sub_self,Nat.pow_zero,Nat.mul_one] at ha
  rw [Nat.sub_self,Nat.pow_zero] at hlo
  obtain rfl : lo = 0 := by omega
  have he : a/d = q ∧ a % d = s.rem :=
    (Nat.div_mod_unique (by omega)).mpr ⟨by rw [ha,hhi]; ring,hr⟩
  exact ⟨by rw [hq,he.1]; simp,he.2.symm⟩

theorem iterate_eq (hd : 0 < d) (ha : a < 2^w) :
    ((step w d)^[w] ⟨0,a⟩).quo = a/d ∧ ((step w d)^[w] ⟨0,a⟩).rem = a % d :=
  (inv_iterate hd ha (Nat.le_refl w)).final

end RestoringDiv
