import Mathlib.Algebra.Group.Nat.Defs
import Mathlib.Data.List.TakeWhile

/-!
Text read from the left by the pieces of a regular expression that never has to go
back, and the numbers in it. Each piece returns what it captured and what is left.
-/

set_option autoImplicit false

namespace Text

def lit : List Char → List Char → Option (List Char)
  | [],l => some l
  | c::s,d::l => if c = d then lit s l else none
  | _::_,[] => none

theorem lit_append (s l : List Char) : lit s (s ++ l) = some l := by
  induction s with
  | nil => rfl
  | cons c s ih => rw [List.cons_append,lit,if_pos rfl,ih]

def many (p : Char → Bool) (l : List Char) : Option (List Char × List Char) :=
  if l.takeWhile p = [] then none else some (l.takeWhile p,l.dropWhile p)

def exactly (p : Char → Bool) (n : Nat) (l : List Char) : Option (List Char × List Char) :=
  if (l.take n).length = n ∧ (l.take n).all p then some (l.take n,l.drop n) else none

section class_

variable {p : Char → Bool}

/-- A text goes on with something outside a class, or ends. -/
def Stops (p : Char → Bool) (l : List Char) : Prop := ∀ c ∈ l.head?, p c = false

theorem stops_nil : Stops p [] := fun _ h => nomatch h

theorem stops_cons {c : Char} {l : List Char} : Stops p (c::l) ↔ p c = false := by
  simp [Stops]

theorem takeWhile_stops {l : List Char} (h : Stops p l) : l.takeWhile p = [] := by
  cases l with
  | nil => rfl
  | cons c l => rw [List.takeWhile_cons,if_neg (by simp [stops_cons.mp h])]

theorem dropWhile_stops {l : List Char} (h : Stops p l) : l.dropWhile p = l := by
  cases l with
  | nil => rfl
  | cons c l => rw [List.dropWhile_cons,if_neg (by simp [stops_cons.mp h])]

theorem many_append {a l : List Char} (ha : ∀ c ∈ a, p c = true) (hn : a ≠ []) (hl : Stops p l) :
    many p (a ++ l) = some (a,l) := by
  have ht : (a ++ l).takeWhile p = a := by
    rw [List.takeWhile_append_of_pos ha,takeWhile_stops hl,List.append_nil]
  rw [many,ht,if_neg hn,List.dropWhile_append_of_pos ha,dropWhile_stops hl]

theorem exactly_append {n : Nat} {a l : List Char} (ha : ∀ c ∈ a, p c = true) (hn : a.length = n) :
    exactly p n (a ++ l) = some (a,l) := by
  subst hn
  rw [exactly,List.take_left,List.drop_left,if_pos ⟨rfl,List.all_eq_true.mpr ha⟩]

end class_

/-! ### Decimal numbers -/

def decimal (n : Nat) : List Char := Nat.toDigits 10 n

def ofDecimal (l : List Char) : Nat := Nat.ofDigitChars 10 l 0

theorem ofDecimal_decimal (n : Nat) : ofDecimal (decimal n) = n := Nat.ofDigitChars_ten_toDigits

theorem isDigit_decimal {n : Nat} : ∀ c ∈ decimal n, c.isDigit = true := fun _ h =>
  Nat.isDigit_of_mem_toDigits (by decide) (by decide) h

theorem decimal_ne_nil (n : Nat) : decimal n ≠ [] := Nat.toDigits_ne_nil

/-! ### Hexadecimal numbers, in lower case -/

def isHex (c : Char) : Bool := c.isDigit || ('a' ≤ c && c ≤ 'f')

def hexVal (c : Char) : Nat :=
  if c.isDigit then c.toNat - '0'.toNat else c.toNat - 'a'.toNat + 10

def ofHex (l : List Char) : Nat := l.foldl (fun n c => 16*n+hexVal c) 0

def hex (w n : Nat) : List Char := (Nat.toDigits 16 n).leftpad w '0'

theorem digitChar_hex : ∀ d < 16, isHex d.digitChar = true ∧ hexVal d.digitChar = d := by decide

theorem toDigits_hex (n : Nat) :
    (∀ c ∈ Nat.toDigits 16 n, isHex c = true) ∧ ofHex (Nat.toDigits 16 n) = n := by
  induction n using Nat.strong_induction_on with
  | _ n ih =>
    rw [Nat.toDigits_eq_if (by decide)]
    split
    · rename_i h
      obtain ⟨hc,hv⟩ := digitChar_hex n h
      exact ⟨by simpa using hc,by simpa [ofHex] using hv⟩
    · rename_i h
      obtain ⟨hc,hv⟩ := digitChar_hex (n % 16) (Nat.mod_lt _ (by decide))
      obtain ⟨ihc,ihv⟩ := ih (n/16) (by omega)
      refine ⟨fun c h => ?_,?_⟩
      · rcases List.mem_append.mp h with h | h
        · exact ihc c h
        · rw [List.mem_singleton.mp h,hc]
      · rw [ofHex,List.foldl_append,← ofHex,ihv,List.foldl_cons,List.foldl_nil,hv]
        omega

theorem isHex_hex {w n : Nat} : ∀ c ∈ hex w n, isHex c = true := by
  intro c h
  rw [hex,List.leftpad] at h
  rcases List.mem_append.mp h with h | h
  · rw [List.eq_of_mem_replicate h]
    rfl
  · exact (toDigits_hex n).1 c h

theorem ofHex_hex (w n : Nat) : ofHex (hex w n) = n := by
  have hz : ∀ k, (List.replicate k '0').foldl (fun n c => 16*n+hexVal c) 0 = 0 := by
    intro k
    induction k with
    | zero => rfl
    | succ k ih =>
      rw [List.replicate_succ,List.foldl_cons]
      exact ih
  rw [hex,List.leftpad,ofHex,List.foldl_append,hz]
  exact (toDigits_hex n).2

theorem hex_ne_nil (w n : Nat) : hex w n ≠ [] := by
  rw [hex,List.leftpad]
  simp

theorem length_hex {w n : Nat} (hw : 0 < w) (h : n < 16^w) : (hex w n).length = w := by
  have hl := (Nat.length_toDigits_le_iff (by decide) hw).mpr h
  rw [hex,List.leftpad,List.length_append,List.length_replicate]
  omega

end Text
