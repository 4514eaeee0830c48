import Mathlib.Algebra.Group.Nat.Defs

/-!
Words read as numbers.
-/

set_option autoImplicit false

namespace Bits

theorem append_toNat {m n : Nat} (h : BitVec m) (l : BitVec n) :
    (h ++ l).toNat = 2^n*h.toNat+l.toNat := by
  rw [BitVec.toNat_append,Nat.shiftLeft_eq,Nat.mul_comm,← Nat.two_pow_add_eq_or_of_lt l.isLt]

theorem extract_toNat {w : Nat} (x : BitVec w) (start len : Nat) :
    (x.extractLsb' start len).toNat = x.toNat/2^start % 2^len := by
  rw [BitVec.extractLsb'_toNat,Nat.shiftRight_eq_div_pow]

/-! The fields of a concatenation. -/

theorem extract_low {m n : Nat} (h : BitVec m) (l : BitVec n) : (h ++ l).extractLsb' 0 n = l := by
  rw [BitVec.extractLsb'_append_eq_of_add_le (by omega),BitVec.extractLsb'_eq_self]

theorem extract_high {m n : Nat} (h : BitVec m) (l : BitVec n) (start len : Nat) :
    (h ++ l).extractLsb' (n+start) len = h.extractLsb' start len := by
  rw [BitVec.extractLsb'_append_eq_of_le (by omega),Nat.add_sub_cancel_left]

theorem extract_extract {w : Nat} (x : BitVec w) (s k t l : Nat) (h : t+l ≤ k) :
    (x.extractLsb' s k).extractLsb' t l = x.extractLsb' (s+t) l := by
  refine BitVec.eq_of_getLsbD_eq fun i hi => ?_
  simp [hi,show t+i < k by omega,Nat.add_assoc]

theorem extract_join {w : Nat} (x : BitVec w) (s m n : Nat) :
    x.extractLsb' (s+n) m ++ x.extractLsb' s n = x.extractLsb' s (m+n) :=
  BitVec.extractLsb'_append_extractLsb'_eq_extractLsb' rfl

theorem ofBool_toNat (b : Bool) : (BitVec.ofBool b).toNat = b.toNat := by
  cases b <;> rfl

/-- The word whose bit `i` is `f i`. -/
def ofFn (n : Nat) (f : Nat → Bool) : BitVec n :=
  (BitVec.ofBoolListLE ((List.range n).map f)).cast (by simp)

@[simp] theorem getLsbD_ofFn (n : Nat) (f : Nat → Bool) (i : Nat) :
    (ofFn n f).getLsbD i = (decide (i < n) && f i) := by
  rw [ofFn,BitVec.getLsbD_cast,BitVec.getLsbD_ofBoolListLE]
  by_cases h : i < n <;> simp [h]

end Bits
