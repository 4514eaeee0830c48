import Mathlib.Data.List.Basic
import Rvntt.Lib.Clocked

/-!
Asynchronous serial frames of one start bit, eight data bits and one stop bit, on a
line that is sampled once a cycle and is high when nothing is sent.
-/

set_option autoImplicit false

namespace Serial

/-- The level of bit `k` of a frame; the data come least significant bit first. -/
def frameBit (b : BitVec 8) (k : Nat) : Bool :=
  if k = 0 then false else if k ≤ 8 then b.getLsbD (k-1) else true

@[simp] theorem frameBit_start (b : BitVec 8) : frameBit b 0 = false := rfl

theorem frameBit_data (b : BitVec 8) {k : Nat} (h : k < 8) : frameBit b (k+1) = b.getLsbD k := by
  rw [frameBit,if_neg (by omega),if_pos (by omega),Nat.add_sub_cancel]

theorem frameBit_stop (b : BitVec 8) {k : Nat} (h : 9 ≤ k) : frameBit b k = true := by
  rw [frameBit,if_neg (by omega),if_neg (by omega)]

/-- `sent` says in which cycles a frame starts, and with which byte. The bits of a frame
are `h` cycles long, frames do not overlap, and between them the line is high. -/
structure Carries (h : Nat) (sent : Nat → Option (BitVec 8)) (line : Nat → Bool) : Prop where
  apart : ∀ {s s' b b'}, sent s = some b → sent s' = some b' → s < s' → s+10*h ≤ s'
  frame : ∀ {s b}, sent s = some b → ∀ k < 10, ∀ t, s+k*h ≤ t → t < s+(k+1)*h →
    line t = frameBit b k
  idle : ∀ t, (∀ s b, sent s = some b → s ≤ t → s+10*h ≤ t) → line t = true

namespace Carries

variable {h : Nat} {sent : Nat → Option (BitVec 8)} {line : Nat → Bool}

theorem started (hc : Carries h sent line) {t : Nat} (hl : line t = false) :
    ∃ s b, sent s = some b ∧ s ≤ t ∧ t < s+10*h := by
  by_contra hn
  push Not at hn
  rw [hc.idle t hn] at hl
  cases hl

theorem same (hc : Carries h sent line) {s s' : Nat} {b b' : BitVec 8} (hs : sent s = some b)
    (hs' : sent s' = some b') (hlt : s < s'+10*h) (hlt' : s' < s+10*h) : s = s' := by
  rcases Nat.lt_trichotomy s s' with hss | hss | hss
  · have := hc.apart hs hs' hss
    omega
  · exact hss
  · have := hc.apart hs' hs hss
    omega

theorem delay (hc : Carries h sent line) (n : Nat) :
    Carries h (Clocked.delayed n sent) (fun t => if t < n then true else line (t-n)) where
  apart {s s' b b'} hs hs' hlt := by
    obtain ⟨u,rfl,hu⟩ := Clocked.delayed_eq_some.mp hs
    obtain ⟨u',rfl,hu'⟩ := Clocked.delayed_eq_some.mp hs'
    have := hc.apart hu hu' (by omega)
    omega
  frame {s b} hs k hk t hlo hhi := by
    obtain ⟨u,rfl,hu⟩ := Clocked.delayed_eq_some.mp hs
    rw [if_neg (by omega)]
    exact hc.frame hu k hk (t-n) (by omega) (by omega)
  idle t hn := by
    by_cases h1 : t < n
    · rw [if_pos h1]
    · rw [if_neg h1]
      refine hc.idle (t-n) fun s b hs hle => ?_
      have := hn (s+n) b (by rw [Clocked.delayed_add,hs]) (by omega)
      omega

end Carries

/-! ### A finite list of frames, each after an idle gap -/

/-- The frames that start, when each waits for its gap behind the one before. -/
def sends (h : Nat) : List (Nat × BitVec 8) → Nat → Option (BitVec 8)
  | [], _ => none
  | (g,b)::l, t =>
    if t < g+10*h then if t = g then some b else none else sends h l (t-(g+10*h))

def line (h : Nat) : List (Nat × BitVec 8) → Nat → Bool
  | [], _ => true
  | (g,b)::l, t =>
    if t < g then true
    else if t < g+10*h then frameBit b ((t-g)/h)
    else line h l (t-(g+10*h))

def duration (h : Nat) (l : List (Nat × BitVec 8)) : Nat := (l.map fun f => f.1+10*h).sum

theorem carries_line {h : Nat} (hh : 0 < h) (l : List (Nat × BitVec 8)) :
    Carries h (sends h l) (line h l) := by
  induction l with
  | nil =>
    refine ⟨fun hs => ?_,fun hs => ?_,fun _ _ => rfl⟩
    · cases hs
    · cases hs
  | cons f l ih =>
    obtain ⟨g,b⟩ := f
    -- a frame is the first one, or one of the rest
    have hcases : ∀ {s c}, sends h ((g,b)::l) s = some c → (s = g ∧ c = b) ∨
        (g+10*h ≤ s ∧ sends h l (s-(g+10*h)) = some c) := by
      intro s c hs
      rw [sends] at hs
      by_cases h1 : s < g+10*h
      · rw [if_pos h1] at hs
        by_cases h2 : s = g
        · rw [if_pos h2] at hs
          exact .inl ⟨h2,(Option.some.inj hs).symm⟩
        · rw [if_neg h2] at hs
          cases hs
      · rw [if_neg h1] at hs
        exact .inr ⟨by omega,hs⟩
    refine ⟨fun {s s' c c'} hs hs' hlt => ?_,fun {s c} hs k hk t hlo hhi => ?_,fun t hn => ?_⟩
    · rcases hcases hs with ⟨rfl,_⟩ | ⟨hge,hs⟩
      · rcases hcases hs' with ⟨rfl,_⟩ | ⟨hge',_⟩
        · omega
        · exact hge'
      · rcases hcases hs' with ⟨rfl,_⟩ | ⟨hge',hs'⟩
        · omega
        · have := ih.apart hs hs' (by omega)
          omega
    · rcases hcases hs with ⟨rfl,rfl⟩ | ⟨hge,hs⟩
      · have hk1 : (k+1)*h ≤ 10*h := Nat.mul_le_mul_right h (by omega)
        rw [line,if_neg (by omega),if_pos (by omega)]
        congr 1
        exact Nat.div_eq_of_lt_le (by omega) (by omega)
      · rw [line,if_neg (by omega),if_neg (by omega)]
        exact ih.frame hs k hk _ (by omega) (by omega)
    · rw [line]
      by_cases h1 : t < g
      · rw [if_pos h1]
      by_cases h2 : t < g+10*h
      · have := hn g b (by simp [sends,hh]) (by omega)
        omega
      · rw [if_neg h1,if_neg h2]
        refine ih.idle _ fun s c hs hle => ?_
        have := hn (g+10*h+s) c (by simp [sends,hs]) (by omega)
        omega

theorem events_sends {h : Nat} (hh : 0 < h) (l : List (Nat × BitVec 8)) {t : Nat}
    (ht : duration h l ≤ t) : Clocked.events (sends h l) t = l.map Prod.snd := by
  induction l generalizing t with
  | nil => exact Clocked.events_eq_nil fun _ _ => rfl
  | cons f l ih =>
    obtain ⟨g,b⟩ := f
    rw [duration,List.map_cons,List.sum_cons,← duration] at ht
    obtain ⟨u,rfl⟩ : ∃ u, t = g+10*h+u := ⟨t-(g+10*h),by omega⟩
    have hrest : (fun v => sends h ((g,b)::l) (g+10*h+v)) = sends h l := by
      funext v
      rw [sends,if_neg (by omega),Nat.add_sub_cancel_left]
    have hfirst : Clocked.events (sends h ((g,b)::l)) (g+10*h) = [b] := by
      refine Clocked.events_single (u := g) ?_ (by omega) fun v hv hne => ?_
      · rw [sends,if_pos (by omega),if_pos rfl]
      · rw [sends,if_pos hv,if_neg hne]
    rw [Clocked.events_add,hfirst,hrest,ih (by omega)]
    rfl

end Serial
