import Mathlib.Data.List.Basic
import Mathlib.Data.Nat.ModEq

/-!
Two patterns in a growing sequence: a value repeated a number of times in a row, and
a property of the consecutive blocks of a fixed size the sequence is cut into. Each
has a rule for the sequence with one more element.
-/

set_option autoImplicit false

namespace Runs

variable {α : Type}

def Repeats (c : Nat) (l : List α) : Prop := ∃ a, List.replicate c a <:+: l

theorem replicate_suffix_concat {n : Nat} {a b : α} {l : List α} :
    List.replicate n b <:+ l ++ [a] ↔ n = 0 ∨ b = a ∧ List.replicate (n-1) b <:+ l := by
  cases n with
  | zero => simp
  | succ n =>
    rw [List.suffix_concat_iff,List.replicate_succ']
    constructor
    · rintro (h | ⟨t,ht,hl⟩)
      · simp at h
      · obtain ⟨rfl,hb⟩ := List.append_inj' ht rfl
        exact .inr ⟨by simpa using hb,hl⟩
    · rintro (h | ⟨rfl,hl⟩)
      · cases h
      · exact .inr ⟨_,rfl,hl⟩

theorem repeats_concat {c : Nat} (hc : 0 < c) {l : List α} {a : α} :
    Repeats c (l ++ [a]) ↔ Repeats c l ∨ List.replicate c a <:+ l ++ [a] := by
  constructor
  · rintro ⟨b,hb⟩
    rcases List.infix_concat_iff.mp hb with h | h
    · rcases replicate_suffix_concat.mp h with h0 | ⟨rfl,_⟩
      · omega
      · exact .inr h
    · exact .inl ⟨b,h⟩
  · rintro (⟨b,hb⟩ | h)
    · exact ⟨b,List.infix_concat_iff.mpr (.inr hb)⟩
    · exact ⟨a,h.isInfix⟩

def Trailing (a : α) (n : Nat) (l : List α) : Prop :=
  ∀ m, List.replicate m a <:+ l ↔ m ≤ n

theorem Trailing.concat_same {a : α} {n : Nat} {l : List α} (h : Trailing a n l) :
    Trailing a (n+1) (l ++ [a]) := by
  intro m
  rw [replicate_suffix_concat,h (m-1)]
  simp only [true_and]
  omega

theorem trailing_concat_new {a : α} {l : List α} (h : l.getLast? ≠ some a) :
    Trailing a 1 (l ++ [a]) := by
  intro m
  rw [replicate_suffix_concat]
  simp only [true_and]
  constructor
  · rintro (rfl | hm)
    · omega
    · by_contra hlt
      obtain ⟨k,hk⟩ : ∃ k, m-1 = k+1 := ⟨m-2,by omega⟩
      rw [hk,List.replicate_succ'] at hm
      obtain ⟨t,rfl⟩ := hm
      rw [← List.append_assoc,List.getLast?_concat] at h
      exact h rfl
  · intro hm
    rcases (by omega : m = 0 ∨ m = 1) with rfl | rfl
    · exact .inl rfl
    · exact .inr (List.nil_suffix)

/-! ### Blocks -/

def SomeBlock (w : Nat) (p : List α → Prop) (l : List α) : Prop :=
  ∃ pre blk post, l = pre ++ blk ++ post ∧ w ∣ pre.length ∧ blk.length = w ∧ p blk

def rest (w : Nat) (l : List α) : List α := l.drop (l.length-l.length%w)

theorem length_rest (w : Nat) (l : List α) : (rest w l).length = l.length % w := by
  have := Nat.mod_le l.length w
  rw [rest,List.length_drop]
  omega

theorem rest_concat {w : Nat} (hw : 0 < w) (l : List α) (a : α) :
    (rest w l).length+1 < w → rest w (l ++ [a]) = rest w l ++ [a] := by
  intro h
  rw [length_rest] at h
  have hle := Nat.mod_le l.length w
  have hmod : (l.length+1) % w = l.length % w+1 := by
    rw [Nat.add_mod,Nat.mod_eq_of_lt (show 1 < w by omega),Nat.mod_eq_of_lt h]
  rw [rest,rest,List.length_append,List.length_singleton,hmod,
    List.drop_append_of_le_length (by omega)]
  congr 2
  omega

theorem someBlock_concat {w : Nat} (hw : 0 < w) (p : List α → Prop) (l : List α) (a : α) :
    SomeBlock w p (l ++ [a]) ↔
      SomeBlock w p l ∨ ((rest w l).length+1 = w ∧ p (rest w l ++ [a])) := by
  have hle := Nat.mod_le l.length w
  have hdvd : w ∣ l.length-l.length%w := Nat.dvd_sub_mod l.length
  constructor
  · rintro ⟨pre,blk,post,h,hd,hb,hp⟩
    rcases List.eq_nil_or_concat post with rfl | ⟨post,b,rfl⟩
    · -- the block ends with the new element
      right
      rw [List.append_nil] at h
      have hlen := congrArg List.length h
      simp only [List.length_append,List.length_singleton] at hlen
      obtain ⟨k,hk⟩ := hd
      have hmod : l.length % w = w-1 := by
        rw [show l.length = w-1+w*k by omega,Nat.add_mul_mod_self_left,
          Nat.mod_eq_of_lt (by omega)]
      have hblk : rest w l ++ [a] = blk := by
        have h1 : rest w l ++ [a] = (l ++ [a]).drop pre.length := by
          rw [List.drop_append_of_le_length (by omega),rest]
          congr 2
          omega
        rw [h1,h,List.drop_left]
      exact ⟨by rw [length_rest]; omega,hblk ▸ hp⟩
    · left
      rw [List.concat_eq_append,← List.append_assoc] at h
      exact ⟨pre,blk,post,(List.append_inj' h rfl).1,hd,hb,hp⟩
  · rintro (⟨pre,blk,post,rfl,hd,hb,hp⟩ | ⟨hl,hp⟩)
    · exact ⟨pre,blk,post ++ [a],by simp,hd,hb,hp⟩
    · refine ⟨l.take (l.length-l.length%w),_,[],?_,?_,?_,hp⟩
      · rw [List.append_nil,← List.append_assoc,rest,List.take_append_drop]
      · rw [List.length_take,Nat.min_eq_left (by omega)]
        exact hdvd
      · simpa using hl

end Runs
