import Mathlib.Tactic.IntervalCases
import Rvntt.Mmio
import Rvntt.Lib.Serial
set_option autoImplicit false

/-!
`rvntt_uart_rx` on a line of frames whose bit period need not be its own.
-/

namespace Rvntt

namespace UartRx

variable {p : UartParams}

structure In where
  rx : Bool
  ack : Bool
  overrunClr : Bool

def machine (p : UartParams) : Clocked.Machine (State p) In :=
  ⟨{},fun s i => next s i.rx i.ack i.overrunClr⟩

def run (p : UartParams) (x : Nat → In) (t : Nat) : State p := (machine p).run x t

def rxS (s : State p) : Bool := s.syncQ.getLsbD 1

def arrived (s : State p) : Option (BitVec 8) :=
  if s.phase = .stop ∧ s.divQ = 0 ∧ rxS s = true then some s.shQ else none

/-! ### One cycle -/

theorem next_syncQ (s : State p) (rx ack clr : Bool) :
    (next s rx ack clr).syncQ = s.syncQ.extractLsb' 0 1 ++ BitVec.ofBool rx := by
  unfold next
  cases s.phase <;> simp only [apply_ite State.syncQ,ite_self]

theorem arrived_eq_some {s : State p} {b : BitVec 8} : arrived s = some b ↔
    s.phase = .stop ∧ s.divQ = 0 ∧ rxS s = true ∧ s.shQ = b := by
  rw [arrived]
  split
  · rename_i h
    simp [h]
  · rename_i h
    simp only [reduceCtorEq,false_iff]
    exact fun h' => h ⟨h'.1,h'.2.1,h'.2.2.1⟩

theorem next_none {s : State p} (h : arrived s = none) (rx ack clr : Bool) :
    (next s rx ack clr).valid = (s.valid && !ack) ∧ (next s rx ack clr).data = s.data ∧
      (next s rx ack clr).overrun = (s.overrun && !clr) := by
  have hv : (if ack = true then false else s.valid) = (s.valid && !ack) := by
    cases ack <;> cases s.valid <;> rfl
  have ho : (if clr = true then false else s.overrun) = (s.overrun && !clr) := by
    cases clr <;> cases s.overrun <;> rfl
  rw [← hv,← ho]
  cases hp : s.phase with
  | stop =>
    by_cases hd : s.divQ = 0
    · have hr : s.syncQ.getLsbD 1 = false := by
        rw [← Bool.not_eq_true]
        intro hr
        rw [arrived,if_pos ⟨hp,hd,hr⟩] at h
        cases h
      simp only [next,hp,hr,if_pos hd,Bool.false_eq_true,if_false,and_self]
    · simp only [next,hp,if_neg hd,and_self]
  | _ =>
    simp only [next,hp,apply_ite State.valid,apply_ite State.data,apply_ite State.overrun,
      ite_self,and_self]

theorem next_some {s : State p} {b : BitVec 8} (h : arrived s = some b) (rx ack clr : Bool) :
    (next s rx ack clr).valid = true ∧
      (next s rx ack clr).data = (if s.valid && !ack then s.data else b) ∧
      (next s rx ack clr).overrun = (s.valid && !ack || s.overrun && !clr) := by
  obtain ⟨hp,hd,hr,hb⟩ := arrived_eq_some.mp h
  have hr : s.syncQ.getLsbD 1 = true := hr
  cases hv : s.valid && !ack with
  | true =>
    obtain ⟨h1,h2⟩ := (Bool.and_eq_true _ _).mp hv
    have hack : ack = false := by simpa using h2
    subst hack
    simp [next,hp,hr,hd,h1]
  | false =>
    simp only [next,hp,hr,if_pos hd,hv,hb,Bool.false_eq_true,if_true,if_false,Bool.false_or,
      true_and]
    cases clr <;> cases s.overrun <;> rfl

theorem next_low (s : State p) (rx ack clr : Bool) :
    (next s rx ack clr).syncQ.getLsbD 0 = rx ∧ rxS (next s rx ack clr) = s.syncQ.getLsbD 0 := by
  rw [rxS,next_syncQ,BitVec.getLsbD_append,BitVec.getLsbD_append]
  simp

theorem rxS_run (x : Nat → In) (t : Nat) :
    rxS (run p x t) = if t < 2 then true else (x (t-2)).rx := by
  match t with
  | 0 =>
    rw [if_pos (by omega)]
    change (0b11 : BitVec 2).getLsbD 1 = true
    decide
  | 1 =>
    rw [if_pos (by omega)]
    refine (next_low ({} : State p) _ _ _).2.trans ?_
    change (0b11 : BitVec 2).getLsbD 0 = true
    decide
  | t+2 =>
    rw [if_neg (by omega),Nat.add_sub_cancel]
    exact (next_low (next (run p x t) _ _ _) _ _ _).2.trans (next_low (run p x t) _ _ _).1

/-! ### Counters -/

theorem ofNat_divW {n : Nat} (h : n ≤ p.divisor) : (BitVec.ofNat (divW p) n).toNat = n := by
  have hlt : p.divisor+1 ≤ 2^divW p := Nat.le_pow_clog (by omega) _
  rw [BitVec.toNat_ofNat,Nat.mod_eq_of_lt (by omega)]

theorem pred_toNat {w : Nat} {d : BitVec w} (h : d ≠ 0) : (d-1).toNat+1 = d.toNat := by
  have hlt := d.isLt
  have h0 : d.toNat ≠ 0 := fun h0 => h (BitVec.eq_of_toNat_eq (by simpa using h0))
  have h1 : (1 : BitVec w).toNat = 1 :=
    (BitVec.toNat_ofNat 1 w).trans (Nat.mod_eq_of_lt (by omega))
  rw [BitVec.toNat_sub_of_le (by rw [BitVec.le_def,h1]; omega),h1]
  omega

theorem shift_in (r : Bool) (sh : BitVec 8) {i : Nat} (hi : i < 8) :
    (BitVec.ofBool r ++ sh.extractLsb' 1 7).getLsbD i =
      if i = 7 then r else sh.getLsbD (i+1) := by
  rw [BitVec.getLsbD_append]
  rcases (by omega : i = 7 ∨ i < 7) with rfl | h
  · simp
  · rw [if_pos h,if_neg (by omega),BitVec.getLsbD_extractLsb',Nat.add_comm]
    simp [h]

/-! ### Where the samples fall -/

/-- The sample of bit 9 is not before its start, and the receiver is idle again before the
next frame can start. -/
structure Samples (p : UartParams) (h : Nat) : Prop where
  early : 9*h ≤ 9*p.divisor+p.divisor/2+1
  late : 9*p.divisor+p.divisor/2+2 ≤ 10*h

def span (p : UartParams) : Nat := 1+p.divisor/2+9*p.divisor

namespace Samples

variable {h : Nat}

theorem three_le (hs : Samples p h) : 3 ≤ p.divisor := by
  have h1 := hs.early
  have h2 := hs.late
  by_contra hlt
  rcases (by omega : p.divisor = 0 ∨ p.divisor = 1 ∨ p.divisor = 2) with h | h | h
  · rw [h] at h1 h2; omega
  · rw [h] at h1 h2; omega
  · rw [h] at h1 h2; omega

theorem window (hs : Samples p h) {k : Nat} (hk : k ≤ 9) :
    k*h ≤ 1+p.divisor/2+k*p.divisor ∧ 1+p.divisor/2+k*p.divisor < (k+1)*h := by
  have h1 := hs.early
  have h2 := hs.late
  have h3 := hs.three_le
  interval_cases k <;> constructor <;> omega

end Samples

/-! ### The receiver follows the frames -/

/-- What the receiver is doing in cycle `t`, when frames start on the synchronised line
where `sent` says. -/
inductive Tracks (sent : Nat → Option (BitVec 8)) (t : Nat) (s : State p) : Prop where
  | idle (hp : s.phase = .idle) (hdone : ∀ f b, sent f = some b → f < t → f+span p < t)
  | start (hp : s.phase = .start) {f : Nat} {b : BitVec 8} (hf : sent f = some b) (hlt : f < t)
      (hd : s.divQ.toNat+t = f+1+p.divisor/2)
  | data (hp : s.phase = .data) {f : Nat} {b : BitVec 8} (hf : sent f = some b) (hlt : f < t)
      (hd : s.divQ.toNat+t = f+1+p.divisor/2+(s.bitQ.toNat+1)*p.divisor)
      (hsh : ∀ i < s.bitQ.toNat, s.shQ.getLsbD (8-s.bitQ.toNat+i) = b.getLsbD i)
  | stop (hp : s.phase = .stop) {f : Nat} {b : BitVec 8} (hf : sent f = some b) (hlt : f < t)
      (hd : s.divQ.toNat+t = f+span p) (hsh : s.shQ = b)

section frames

variable {h : Nat} {sent : Nat → Option (BitVec 8)} {level : Nat → Bool}

theorem tracks_next (hc : Serial.Carries h sent level) (hs : Samples p h) {t : Nat}
    {s : State p} (hl : level t = rxS s) (ht : Tracks sent t s) (rx ack clr : Bool) :
    Tracks sent (t+1) (next s rx ack clr) := by
  have hD := hs.three_le
  cases ht with
  | idle hp hdone =>
    cases hr : rxS s with
    | false =>
      rw [hr] at hl
      obtain ⟨f,b,hf,hle,hlt⟩ := hc.started hl
      -- behind a frame that is done the line is at its stop bit
      have hft : f = t := by
        by_contra hne
        have hd := hdone f b hf (by omega)
        have hw := hs.window (k := 9) (by omega)
        rw [span] at hd
        have hb := hc.frame hf 9 (by omega) t (by omega) (by omega)
        rw [hl,Serial.frameBit_stop b (by omega)] at hb
        cases hb
      subst hft
      have hr : s.syncQ.getLsbD 1 = false := hr
      have hphase : (next s rx ack clr).phase = .start := by
        simp only [next,hp,hr,Bool.not_false,if_true]
      have hdiv : (next s rx ack clr).divQ = BitVec.ofNat _ (p.divisor/2) := by
        simp only [next,hp,hr,Bool.not_false,if_true]
      refine .start hphase hf (by omega) ?_
      rw [hdiv,ofNat_divW (by omega)]
      omega
    | true =>
      have hr' : s.syncQ.getLsbD 1 = true := hr
      have hphase : (next s rx ack clr).phase = .idle := by
        simp only [next,hp,hr',Bool.not_true,Bool.false_eq_true,if_false]
      refine .idle hphase fun f b hf hlt => ?_
      rcases Nat.lt_or_ge f t with h1 | h1
      · have := hdone f b hf h1
        omega
      · have hft : f = t := by omega
        have hw := hs.window (k := 0) (by omega)
        have hb := hc.frame hf 0 (by omega) t (by omega) (by omega)
        rw [hl,hr] at hb
        cases hb
  | @start hp f b hf hlt hd =>
    by_cases h0 : s.divQ = 0
    · have hz : s.divQ.toNat = 0 := by rw [h0]; rfl
      have hw := hs.window (k := 0) (by omega)
      have hb := hc.frame hf 0 (by omega) t (by omega) (by omega)
      rw [hl] at hb
      have hr : s.syncQ.getLsbD 1 = false := hb
      have hphase : (next s rx ack clr).phase = .data := by
        simp only [next,hp,hr,if_pos h0,Bool.not_false,if_true]
      have hdiv : (next s rx ack clr).divQ = BitVec.ofNat _ (p.divisor-1) := by
        simp only [next,hp,hr,if_pos h0,Bool.not_false,if_true]
      have hbit : (next s rx ack clr).bitQ.toNat = 0 := by
        simp only [next,hp,hr,if_pos h0,Bool.not_false,if_true]
        rfl
      refine .data hphase hf (by omega) ?_ fun i hi => by omega
      rw [hdiv,hbit,ofNat_divW (by omega)]
      omega
    · have hz := pred_toNat h0
      have hdiv : (next s rx ack clr).divQ = s.divQ-1 := by
        simp only [next,hp,if_neg h0]
      refine .start (by simp only [next,hp,if_neg h0]) hf (by omega) ?_
      rw [hdiv]
      omega
  | @data hp f b hf hlt hd hsh =>
    have hk := s.bitQ.isLt
    by_cases h0 : s.divQ = 0
    · have hz : s.divQ.toNat = 0 := by rw [h0]; rfl
      have hw := hs.window (k := s.bitQ.toNat+1) (by omega)
      have hb := hc.frame hf (s.bitQ.toNat+1) (by omega) t (by omega) (by omega)
      rw [hl,Serial.frameBit_data b hk] at hb
      have hdiv : (next s rx ack clr).divQ = BitVec.ofNat _ (p.divisor-1) := by
        simp only [next,hp,if_pos h0,apply_ite State.divQ,ite_self]
      have hshq : (next s rx ack clr).shQ = BitVec.ofBool (rxS s) ++ s.shQ.extractLsb' 1 7 := by
        simp only [next,hp,if_pos h0,apply_ite State.shQ,ite_self]
        rfl
      have hnew : ∀ i ≤ s.bitQ.toNat,
          (next s rx ack clr).shQ.getLsbD (7-s.bitQ.toNat+i) = b.getLsbD i := by
        intro i hi
        rw [hshq,shift_in _ _ (by omega)]
        rcases (by omega : i = s.bitQ.toNat ∨ i < s.bitQ.toNat) with rfl | h1
        · rw [if_pos (by omega)]
          exact hb
        · rw [if_neg (by omega),← hsh i h1]
          congr 1
          omega
      by_cases h7 : s.bitQ = 7
      · have hk7 : s.bitQ.toNat = 7 := by rw [h7]; rfl
        have hphase : (next s rx ack clr).phase = .stop := by
          simp only [next,hp,if_pos h0,if_pos h7]
        refine .stop hphase hf (by omega) ?_ (BitVec.eq_of_getLsbD_eq fun i hi => ?_)
        · rw [hdiv,ofNat_divW (by omega),span]
          rw [hk7] at hd
          omega
        · have hi := hnew i (by omega)
          rwa [hk7,Nat.sub_self,Nat.zero_add] at hi
      · have hk7 : s.bitQ.toNat ≠ 7 := fun h => h7 (BitVec.eq_of_toNat_eq h)
        have hphase : (next s rx ack clr).phase = .data := by
          simp only [next,hp,if_pos h0,if_neg h7]
        have hbit : (next s rx ack clr).bitQ.toNat = s.bitQ.toNat+1 := by
          simp only [next,hp,if_pos h0,if_neg h7]
          exact (BitVec.toNat_add _ _).trans (Nat.mod_eq_of_lt (by
            change s.bitQ.toNat+1 < 8
            omega))
        refine .data hphase hf (by omega) ?_ ?_
        · rw [hdiv,hbit,ofNat_divW (by omega)]
          have hmul : (s.bitQ.toNat+1+1)*p.divisor = (s.bitQ.toNat+1)*p.divisor+p.divisor :=
            Nat.succ_mul _ _
          omega
        · rw [hbit]
          intro i hi
          rw [← hnew i (by omega)]
          congr 1
          omega
    · have hz := pred_toNat h0
      have hdiv : (next s rx ack clr).divQ = s.divQ-1 := by
        simp only [next,hp,if_neg h0]
      have hbit : (next s rx ack clr).bitQ = s.bitQ := by
        simp only [next,hp,if_neg h0]
      have hshq : (next s rx ack clr).shQ = s.shQ := by
        simp only [next,hp,if_neg h0]
      refine .data (by simp only [next,hp,if_neg h0]) hf (by omega) ?_ ?_
      · rw [hdiv,hbit]
        omega
      · rw [hbit,hshq]
        exact hsh
  | @stop hp f b hf hlt hd hsh =>
    by_cases h0 : s.divQ = 0
    · have hz : s.divQ.toNat = 0 := by rw [h0]; rfl
      have hphase : (next s rx ack clr).phase = .idle := by
        simp only [next,hp,if_pos h0,apply_ite State.phase,ite_self]
      refine .idle hphase fun f' b' hf' hlt' => ?_
      have hlate := hs.late
      rw [span] at hd ⊢
      rcases Nat.lt_trichotomy f' f with h1 | h1 | h1
      · have := hc.apart hf' hf h1
        omega
      · omega
      · have := hc.apart hf hf' h1
        omega
    · have hz := pred_toNat h0
      have hdiv : (next s rx ack clr).divQ = s.divQ-1 := by
        simp only [next,hp,if_neg h0]
      have hshq : (next s rx ack clr).shQ = s.shQ := by
        simp only [next,hp,if_neg h0]
      refine .stop (by simp only [next,hp,if_neg h0]) hf (by omega) ?_ (hshq.trans hsh)
      rw [hdiv]
      omega

theorem tracks_arrived (hc : Serial.Carries h sent level) (hs : Samples p h) {t : Nat}
    {s : State p} (hl : level t = rxS s) (ht : Tracks sent t s) :
    arrived s = Clocked.delayed (span p) sent t := by
  have hlate := hs.late
  have hspan : span p = 1+p.divisor/2+9*p.divisor := rfl
  -- a frame that is due now is the one being followed
  have hother : ∀ {f b}, sent f = some b → f < t → t ≤ f+span p →
      ∀ f' b', sent f' = some b' → t = f'+span p → f' = f := by
    intro f b hf hlt hle f' b' hf' ht
    exact hc.same hf' hf (by omega) (by omega)
  have hnone : s.phase ≠ .stop → (∀ f b, sent f = some b → t ≠ f+span p) →
      arrived s = Clocked.delayed (span p) sent t := by
    intro hp hno
    rw [arrived,if_neg fun h => hp h.1]
    refine (Option.eq_none_iff_forall_ne_some.mpr fun b hb => ?_).symm
    obtain ⟨f,ht,hf⟩ := Clocked.delayed_eq_some.mp hb
    exact hno f b hf ht
  cases ht with
  | idle hp hdone =>
    refine hnone (by rw [hp]; decide) fun f b hf ht => ?_
    have := hdone f b hf (by omega)
    omega
  | @start hp f b hf hlt hd =>
    refine hnone (by rw [hp]; decide) fun f' b' hf' ht => ?_
    have := hother hf hlt (by omega) f' b' hf' ht
    have hD := hs.three_le
    omega
  | @data hp f b hf hlt hd hsh =>
    have hk : (s.bitQ.toNat+1)*p.divisor ≤ 8*p.divisor :=
      Nat.mul_le_mul_right _ (by have := s.bitQ.isLt; omega)
    refine hnone (by rw [hp]; decide) fun f' b' hf' ht => ?_
    have := hother hf hlt (by omega) f' b' hf' ht
    have hD := hs.three_le
    omega
  | @stop hp f b hf hlt hd hsh =>
    by_cases h0 : s.divQ = 0
    · have hz : s.divQ.toNat = 0 := by rw [h0]; rfl
      have ht : t = f+span p := by omega
      have hw := hs.window (k := 9) (by omega)
      have hb := hc.frame hf 9 (by omega) t (by omega) (by omega)
      rw [Serial.frameBit_stop b (by omega),hl] at hb
      rw [arrived_eq_some.mpr ⟨hp,h0,hb,hsh⟩,ht,Clocked.delayed_add,hf]
    · have hz := pred_toNat h0
      rw [arrived,if_neg fun h => h0 h.2.1]
      refine (Option.eq_none_iff_forall_ne_some.mpr fun b' hb' => ?_).symm
      obtain ⟨f',ht,hf'⟩ := Clocked.delayed_eq_some.mp hb'
      have := hother hf hlt (by omega) f' b' hf' ht
      omega

end frames

/-! ### Runs -/

section run

variable {h : Nat} {sent : Nat → Option (BitVec 8)} {x : Nat → In}

def latency (p : UartParams) : Nat := span p+2

theorem run_arrived (hc : Serial.Carries h sent fun t => (x t).rx) (hs : Samples p h) (t : Nat) :
    arrived (run p x t) = Clocked.delayed (latency p) sent t := by
  have hd := hc.delay 2
  have hl : ∀ t, (fun t => if t < 2 then true else (x (t-2)).rx) t = rxS (run p x t) :=
    fun t => (rxS_run x t).symm
  have ht : Tracks (Clocked.delayed 2 sent) t (run p x t) := by
    induction t with
    | zero => exact .idle rfl fun f b _ h => by omega
    | succ t ih => exact tracks_next hd hs (hl t) ih _ _ _
  rw [tracks_arrived hd hs (hl t) ht,Clocked.delayed_delayed]
  rfl

variable (p x)

/-- A byte is presented when `valid` rises, or stays up over an acknowledge. -/
def presentedAt (t : Nat) : Option (BitVec 8) :=
  let s := run p x t
  let s' := run p x (t+1)
  if s'.valid && !(s.valid && !(x t).ack) then some s'.data else none

def presented (t : Nat) : List (BitVec 8) := Clocked.events (presentedAt p x) t

variable {p x}

theorem run_succ (t : Nat) :
    run p x (t+1) = next (run p x t) (x t).rx (x t).ack (x t).overrunClr := rfl

theorem presentedAt_eq (t : Nat) : presentedAt p x t =
    if (run p x t).valid && !(x t).ack then none else arrived (run p x t) := by
  rw [presentedAt,run_succ]
  cases ha : arrived (run p x t) with
  | none =>
    obtain ⟨hv,_,_⟩ := next_none ha (x t).rx (x t).ack (x t).overrunClr
    simp [hv]
  | some b =>
    obtain ⟨hv,hd,_⟩ := next_some ha (x t).rx (x t).ack (x t).overrunClr
    rw [hv,hd]
    cases (run p x t).valid && !(x t).ack <;> rfl

theorem run_held {t : Nat} (hv : (run p x t).valid = true) (ha : (x t).ack = false) :
    (run p x (t+1)).valid = true ∧ (run p x (t+1)).data = (run p x t).data := by
  rw [run_succ]
  cases hb : arrived (run p x t) with
  | none =>
    obtain ⟨h1,h2,_⟩ := next_none hb (x t).rx (x t).ack (x t).overrunClr
    exact ⟨by rw [h1,hv,ha]; rfl,h2⟩
  | some b =>
    obtain ⟨h1,h2,_⟩ := next_some hb (x t).rx (x t).ack (x t).overrunClr
    exact ⟨h1,by rw [h2,hv,ha]; rfl⟩

theorem run_overrun_held {t u : Nat} (ho : (run p x t).overrun = true) (htu : t ≤ u)
    (hc : ∀ v, t ≤ v → v < u → (x v).overrunClr = false) : (run p x u).overrun = true := by
  induction u with
  | zero => rwa [Nat.le_zero.mp htu] at ho
  | succ u ih =>
    rcases Nat.lt_or_ge u t with hlt | hge
    · rwa [Nat.le_antisymm htu hlt] at ho
    · have hu := ih hge fun v h1 h2 => hc v h1 (by omega)
      have hcu := hc u hge (by omega)
      rw [run_succ]
      cases hb : arrived (run p x u) with
      | none => simp [(next_none hb _ _ _).2.2,hu,hcu]
      | some b => simp [(next_some hb _ _ _).2.2,hu,hcu]

theorem run_valid {t : Nat} (hv : (run p x t).valid = true) : ∃ u < t,
    arrived (run p x u) ≠ none ∧ ∀ v, u < v → v < t → (x v).ack = false := by
  induction t with
  | zero => cases hv
  | succ t ih =>
    cases hb : arrived (run p x t) with
    | some b => exact ⟨t,by omega,by rw [hb]; exact Option.some_ne_none b,fun v h1 h2 => by omega⟩
    | none =>
      rw [run_succ,(next_none hb _ _ _).1,Bool.and_eq_true] at hv
      obtain ⟨u,hut,hu,hack⟩ := ih hv.1
      refine ⟨u,by omega,hu,fun v h1 h2 => ?_⟩
      rcases Nat.lt_or_ge v t with h3 | h3
      · exact hack v h1 h3
      · have hvt : v = t := by omega
        rw [hvt]
        simpa using hv.2

/-- Every byte is acknowledged no later than the next stop bit is sampled. -/
def InTime (p : UartParams) (sent : Nat → Option (BitVec 8)) (ack : Nat → Bool) : Prop :=
  ∀ f f' b b', sent f = some b → sent f' = some b' → f < f' →
    ∃ u, f+latency p < u ∧ u ≤ f'+latency p ∧ ack u = true

section intime

variable (hc : Serial.Carries h sent fun t => (x t).rx) (hs : Samples p h)
  (ht : InTime p sent fun t => (x t).ack)

include hc hs ht

theorem arrived_free {t : Nat} (ha : arrived (run p x t) ≠ none) :
    ((run p x t).valid && !(x t).ack) = false := by
  rw [← Bool.not_eq_true]
  intro hv
  obtain ⟨hv,hack⟩ := (Bool.and_eq_true _ _).mp hv
  obtain ⟨u,hut,hu,hno⟩ := run_valid hv
  rw [run_arrived hc hs] at ha hu
  obtain ⟨b,ha⟩ := Option.ne_none_iff_exists'.mp ha
  obtain ⟨b',hu⟩ := Option.ne_none_iff_exists'.mp hu
  obtain ⟨f',rfl,hf'⟩ := Clocked.delayed_eq_some.mp ha
  obtain ⟨f,rfl,hf⟩ := Clocked.delayed_eq_some.mp hu
  obtain ⟨v,h1,h2,h3⟩ := ht f f' b' b hf hf' (by omega)
  rcases Nat.lt_or_ge v (f'+latency p) with h4 | h4
  · exact Bool.false_ne_true ((hno v h1 h4).symm.trans h3)
  · have hat : (x (f'+latency p)).ack = true := Nat.le_antisymm h2 h4 ▸ h3
    rw [hat] at hack
    cases hack

theorem presented_all (t : Nat) :
    presented p x (t+latency p) = Clocked.events sent t := by
  rw [← Clocked.events_delayed (latency p),presented]
  congr 1
  funext u
  rw [presentedAt_eq,← run_arrived hc hs]
  by_cases ha : arrived (run p x u) = none
  · rw [ha,ite_self]
  · rw [arrived_free hc hs ht ha,if_neg Bool.false_ne_true]

theorem no_overrun (t : Nat) : (run p x t).overrun = false := by
  induction t with
  | zero => rfl
  | succ t ih =>
    rw [run_succ]
    cases hb : arrived (run p x t) with
    | none => simp [(next_none hb _ _ _).2.2,ih]
    | some b =>
      have hf := arrived_free hc hs ht (t := t) (by rw [hb]; exact Option.some_ne_none b)
      simp [(next_some hb _ _ _).2.2,ih,hf]

end intime

end run

/-! ### A host with its own bit period -/

/-- A host that sends a list of bytes, each after an idle gap, and any consumer. -/
def hostIn (h : Nat) (l : List (Nat × BitVec 8)) (ack overrunClr : Nat → Bool) (t : Nat) : In :=
  ⟨Serial.line h l t,ack t,overrunClr t⟩

def stopSample (p : UartParams) (f : Nat) : Nat := f+latency p

theorem received {h : Nat}
    (he : 9*((h : Int)-p.divisor) ≤ ((p.divisor/2 : Nat) : Int)+1)
    (hl : 10*(h : Int)-9*p.divisor ≥ ((p.divisor/2 : Nat) : Int)+2)
    (l : List (Nat × BitVec 8)) (ack overrunClr : Nat → Bool) :
    let x := hostIn h l ack overrunClr
    let s := run p x
    (∀ t, (presented p x t).Sublist (l.map Prod.snd)) ∧
    (∀ t b, presentedAt p x t = some b →
      ∃ f, t = stopSample p f ∧ Serial.sends h l f = some b) ∧
    (∀ t, (s t).valid = true → ack t = false →
      (s (t+1)).valid = true ∧ (s (t+1)).data = (s t).data) ∧
    (∀ f b, Serial.sends h l f = some b →
      presentedAt p x (stopSample p f) = some b ∨
      (presentedAt p x (stopSample p f) = none ∧ (s (stopSample p f)).valid = true ∧
        ack (stopSample p f) = false ∧
        ∀ u, stopSample p f < u →
          (∀ v, stopSample p f < v → v < u → overrunClr v = false) → (s u).overrun = true)) ∧
    ((∀ f f' b b', Serial.sends h l f = some b → Serial.sends h l f' = some b' → f < f' →
        ∃ u, stopSample p f < u ∧ u ≤ stopSample p f' ∧ ack u = true) →
      ∀ t, presented p x (Serial.duration h l+latency p+t) = l.map Prod.snd) := by
  intro x s
  have hs : Samples p h := ⟨by omega,by omega⟩
  have hh : 0 < h := by
    have := hs.late
    omega
  have hc : Serial.Carries h (Serial.sends h l) fun t => (x t).rx := Serial.carries_line hh l
  refine ⟨fun t => ?_,fun t b hb => ?_,fun t hv ha => run_held hv ha,fun f b hf => ?_,
    fun ht t => ?_⟩
  · -- what is presented is part of what arrives, which is a prefix of what is sent
    have hsub : (presented p x t).Sublist
        (Clocked.events (Clocked.delayed (latency p) (Serial.sends h l)) t) := by
      refine Clocked.events_sublist (fun u => ?_) t
      rw [presentedAt_eq,← run_arrived hc hs]
      cases (run p x u).valid && !(x u).ack
      · exact .inr rfl
      · exact .inl rfl
    have hall : Clocked.events (Clocked.delayed (latency p) (Serial.sends h l))
        (Serial.duration h l+t+latency p) = l.map Prod.snd := by
      rw [Clocked.events_delayed,Serial.events_sends hh l (Nat.le_add_right _ t)]
    rw [← hall]
    refine hsub.trans ?_
    have hle : t ≤ Serial.duration h l+t+latency p := by omega
    exact (Clocked.events_prefix _ hle).sublist
  · rw [presentedAt_eq,run_arrived hc hs] at hb
    cases hv : (run p x t).valid && !(x t).ack with
    | true => rw [hv,if_pos rfl] at hb; cases hb
    | false =>
      rw [hv,if_neg Bool.false_ne_true] at hb
      exact Clocked.delayed_eq_some.mp hb
  · have ha : arrived (run p x (stopSample p f)) = some b := by
      rw [run_arrived hc hs,stopSample,Clocked.delayed_add,hf]
    rw [presentedAt_eq]
    cases hv : (run p x (stopSample p f)).valid && !(x (stopSample p f)).ack with
    | false => exact .inl ha
    | true =>
      obtain ⟨h1,h2⟩ := (Bool.and_eq_true _ _).mp hv
      have h2 : ack (stopSample p f) = false := (Bool.not_eq_true' _).mp h2
      refine .inr ⟨rfl,h1,h2,fun u hu hclr => ?_⟩
      refine run_overrun_held (t := stopSample p f+1) ?_ hu fun v h3 h4 => hclr v (by omega) h4
      rw [run_succ,(next_some ha _ _ _).2.2,hv]
      rfl
  · rw [show Serial.duration h l+latency p+t = Serial.duration h l+t+latency p by omega,
      presented_all hc hs ht,Serial.events_sends hh l (Nat.le_add_right _ t)]

/-- The bench's clock and baud rate, with the host a cycle a bit slow. -/
theorem received_slow_host : (presented ⟨34,1⟩ (hostIn 35 [(3,0x5A),(0,0xC3)] (fun _ => true)
    fun _ => false) (Serial.duration 35 [(3,0x5A),(0,0xC3)]+latency ⟨34,1⟩+0)) = [0x5A,0xC3] :=
  (received (p := ⟨34,1⟩) (h := 35) (by decide) (by decide) [(3,0x5A),(0,0xC3)] (fun _ => true)
    fun _ => false).2.2.2.2 (fun _ f' _ _ _ _ hlt =>
      ⟨stopSample ⟨34,1⟩ f',Nat.add_lt_add_right hlt _,Nat.le_refl _,rfl⟩) 0

end UartRx

end Rvntt
