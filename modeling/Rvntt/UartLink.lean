import Rvntt.UartReceiver
set_option autoImplicit false

/-!
`rvntt_uart_tx`, and the receiver at the other end of its line.
-/

namespace Rvntt

namespace UartTx

variable {p : UartParams}

structure In where
  data : BitVec 8
  valid : Bool

def machine (p : UartParams) : Clocked.Machine (State p) In :=
  ⟨{},fun s i => next s i.data i.valid⟩

def run (p : UartParams) (x : Nat → In) (t : Nat) : State p := (machine p).run x t

def accepted (p : UartParams) (x : Nat → In) (t : Nat) : Option (BitVec 8) :=
  if ready (run p x t) && (x t).valid then some (x t).data else none

/-- From the cycle of acceptance to the start bit. -/
def latency (p : UartParams) : Nat := p.divisor+1

/-! ### Frames -/

/-- What the transmitter is doing in cycle `t`. Bit `k` of a frame is on the line from
the `k`-th tick on, and the frame is done with the tick that puts its stop bit there. -/
inductive Tracks (acc : Nat → Option (BitVec 8)) (t : Nat) (s : State p) : Prop where
  | idle (hb : s.busyQ = false) (htx : s.tx = true)
      (hdone : ∀ u b, acc u = some b → u < t → u+10*p.divisor < t)
  | busy (hb : s.busyQ = true) {u : Nat} {b : BitVec 8} (hu : acc u = some b)
      (hlast : ∀ u' b', acc u' = some b' → u' < t → u' ≤ u)
      (hk : s.bitQ.toNat < 10) (hd : s.divQ.toNat < p.divisor)
      (ht : t = u+1+s.bitQ.toNat*p.divisor+s.divQ.toNat)
      (hsh : ∀ i < 10, s.shiftQ.getLsbD i = Serial.frameBit b (s.bitQ.toNat+i))
      (htx : s.tx = (s.bitQ.toNat == 0 || Serial.frameBit b (s.bitQ.toNat-1)))

theorem ofNat_divW {n : Nat} (hn : n < p.divisor) : (BitVec.ofNat (divW p) n).toNat = n := by
  have hlt : p.divisor ≤ 2^divW p := Nat.le_pow_clog (by omega) _
  rw [BitVec.toNat_ofNat,Nat.mod_eq_of_lt (by omega)]

theorem load_shift (b : BitVec 8) {i : Nat} (hi : i < 10) :
    ((1 : BitVec 1) ++ b ++ (0 : BitVec 1)).getLsbD i = Serial.frameBit b i := by
  rw [BitVec.getLsbD_append,BitVec.getLsbD_append]
  rcases (by omega : i = 0 ∨ (1 ≤ i ∧ i ≤ 8) ∨ i = 9) with rfl | ⟨h1,h2⟩ | rfl
  · rfl
  · rw [if_neg (by omega),if_pos (by omega),Serial.frameBit,if_neg (by omega),if_pos h2]
  · rfl

theorem shift_shift (sh : BitVec 10) {i : Nat} (hi : i < 10) :
    ((1 : BitVec 1) ++ sh.extractLsb' 1 9).getLsbD i =
      if i = 9 then true else sh.getLsbD (i+1) := by
  rw [BitVec.getLsbD_append]
  rcases (by omega : i = 9 ∨ i < 9) with rfl | h
  · rfl
  · rw [if_pos h,if_neg (by omega),BitVec.getLsbD_extractLsb',Nat.add_comm]
    simp [h]

section step

variable {acc : Nat → Option (BitVec 8)} {t : Nat} {s : State p}

theorem tracks_next (hD : 0 < p.divisor) {i : In}
    (ha : acc t = if ready s && i.valid then some i.data else none) (h : Tracks acc t s) :
    Tracks acc (t+1) (next s i.data i.valid) := by
  cases h with
  | idle hb htx hdone =>
    rw [ready,hb,Bool.not_false,Bool.true_and] at ha
    cases hv : i.valid with
    | false =>
      rw [hv,if_neg Bool.false_ne_true] at ha
      have hn : next s i.data false = {s with tx := true, divQ := 0} := by
        simp only [next,hb,Bool.not_false,if_true,Bool.false_eq_true,if_false]
      rw [hn]
      refine .idle hb rfl fun u b hu hlt => ?_
      rcases Nat.lt_or_ge u t with h1 | h1
      · have := hdone u b hu h1
        omega
      · rw [show u = t by omega,ha] at hu
        cases hu
    | true =>
      rw [hv,if_pos rfl] at ha
      have hn : next s i.data true =
          { divQ := 0
            bitQ := 0
            shiftQ := (1 : BitVec 1) ++ i.data ++ (0 : BitVec 1)
            busyQ := true
            tx := true } := by
        simp only [next,hb,Bool.not_false,if_true]
      rw [hn]
      refine .busy rfl ha (fun u' b' _ hlt => by omega) (Nat.succ_pos 9) hD ?_ (fun j hj => ?_) rfl
      · change t+1 = t+1+0*p.divisor+0
        omega
      · rw [load_shift _ hj]
        exact congrArg _ (Nat.zero_add j).symm
  | @busy hb u b hu hlast hk hd ht hsh htx =>
    rw [ready,hb,Bool.not_true,Bool.false_and,if_neg Bool.false_ne_true] at ha
    -- nothing is accepted while a frame is being sent
    have hlast' : ∀ u' b', acc u' = some b' → u' < t+1 → u' ≤ u := by
      intro u' b' hu' hlt
      rcases Nat.lt_or_ge u' t with h1 | h1
      · exact hlast u' b' hu' h1
      · rw [show u' = t by omega,ha] at hu'
        cases hu'
    cases htick : baudTick s with
    | false =>
      have hne : s.divQ.toNat ≠ p.divisor-1 := by
        intro h
        rw [← Bool.not_eq_true] at htick
        refine htick (beq_iff_eq.mpr (BitVec.eq_of_toNat_eq ?_))
        rw [h,ofNat_divW (by omega)]
      have hn : next s i.data i.valid = {s with divQ := s.divQ+1} := by
        simp only [next,hb,htick,Bool.not_true,Bool.false_eq_true,if_false]
      have hdiv : (s.divQ+1).toNat = s.divQ.toNat+1 := by
        have hlt : p.divisor ≤ 2^divW p := Nat.le_pow_clog (by omega) _
        rw [BitVec.toNat_add]
        have h1 : (1 : BitVec (divW p)).toNat = 1 :=
          (BitVec.toNat_ofNat 1 _).trans (Nat.mod_eq_of_lt (by omega))
        rw [h1,Nat.mod_eq_of_lt (by omega)]
      rw [hn]
      refine .busy hb hu hlast' hk ?_ ?_ hsh htx
      · change (s.divQ+1).toNat < p.divisor
        omega
      · change t+1 = u+1+s.bitQ.toNat*p.divisor+(s.divQ+1).toNat
        omega
    | true =>
      have hdiv : s.divQ.toNat = p.divisor-1 := by
        rw [beq_iff_eq.mp htick,ofNat_divW (by omega)]
      have hmul : (s.bitQ.toNat+1)*p.divisor = s.bitQ.toNat*p.divisor+p.divisor :=
        Nat.succ_mul _ _
      have h0 : s.shiftQ.getLsbD 0 = Serial.frameBit b s.bitQ.toNat := hsh 0 (by omega)
      have hn : next s i.data i.valid =
          { divQ := 0
            bitQ := s.bitQ+1
            shiftQ := (1 : BitVec 1) ++ s.shiftQ.extractLsb' 1 9
            busyQ := s.bitQ != BitVec.ofNat 4 (bitCount-1)
            tx := s.shiftQ.getLsbD 0 } := by
        simp only [next,hb,htick,Bool.not_true,Bool.false_eq_true,if_false,if_true]
      rw [hn]
      by_cases h9 : s.bitQ = 9
      · have hk9 : s.bitQ.toNat = 9 := by rw [h9]; rfl
        refine .idle ?_ ?_ fun u' b' hu' hlt => ?_
        · change (s.bitQ != 9) = false
          rw [h9]
          rfl
        · change s.shiftQ.getLsbD 0 = true
          rw [h0,Serial.frameBit_stop b (by omega)]
        · have := hlast' u' b' hu' hlt
          rw [hk9] at ht
          omega
      · have hk9 : s.bitQ.toNat ≠ 9 := fun h => h9 (BitVec.eq_of_toNat_eq h)
        have hbit : (s.bitQ+1).toNat = s.bitQ.toNat+1 :=
          (BitVec.toNat_add _ _).trans (Nat.mod_eq_of_lt (by
            change s.bitQ.toNat+1 < 16
            omega))
        refine .busy ?_ hu hlast' ?_ hD ?_ (fun j hj => ?_) ?_
        · change (s.bitQ != 9) = true
          exact bne_iff_ne.mpr h9
        · change (s.bitQ+1).toNat < 10
          omega
        · change t+1 = u+1+(s.bitQ+1).toNat*p.divisor+0
          rw [hbit]
          omega
        · change ((1 : BitVec 1) ++ s.shiftQ.extractLsb' 1 9).getLsbD j =
            Serial.frameBit b ((s.bitQ+1).toNat+j)
          rw [shift_shift _ hj,hbit]
          by_cases hj9 : j = 9
          · rw [if_pos hj9,Serial.frameBit_stop b (by omega)]
          · rw [if_neg hj9,hsh (j+1) (by omega)]
            congr 1
            omega
        · change s.shiftQ.getLsbD 0 =
            ((s.bitQ+1).toNat == 0 || Serial.frameBit b ((s.bitQ+1).toNat-1))
          rw [hbit,h0]
          simp

end step

section run

variable (x : Nat → In)

theorem run_tracks (hD : 0 < p.divisor) (t : Nat) : Tracks (accepted p x) t (run p x t) := by
  induction t with
  | zero => exact .idle rfl rfl fun u b _ h => by omega
  | succ t ih => exact tracks_next hD rfl ih

theorem accepted_apart (hD : 0 < p.divisor) {u u' : Nat} {b b' : BitVec 8}
    (hu : accepted p x u = some b) (hu' : accepted p x u' = some b') (hlt : u < u') :
    u+10*p.divisor < u' := by
  cases run_tracks x hD u' with
  | idle _ _ hdone => exact hdone u b hu hlt
  | busy hb =>
    rw [accepted,ready,hb,Bool.not_true,Bool.false_and,if_neg Bool.false_ne_true] at hu'
    cases hu'

/-- The line carries the accepted bytes, one frame each. -/
theorem run_carries (hD : 0 < p.divisor) : Serial.Carries p.divisor
    (Clocked.delayed (latency p) (accepted p x)) fun t => (run p x t).tx where
  apart {s s' b b'} hs hs' hlt := by
    obtain ⟨u,rfl,hu⟩ := Clocked.delayed_eq_some.mp hs
    obtain ⟨u',rfl,hu'⟩ := Clocked.delayed_eq_some.mp hs'
    have := accepted_apart x hD hu hu' (by omega)
    omega
  frame {s b} hs k hk t hlo hhi := by
    obtain ⟨u,rfl,hu⟩ := Clocked.delayed_eq_some.mp hs
    have hk1 : (k+1)*p.divisor = k*p.divisor+p.divisor := Nat.succ_mul _ _
    rw [latency] at hlo hhi
    cases run_tracks x hD t with
    | idle hb htx hdone =>
      have hafter := hdone u b hu (by omega)
      have hk9 : k = 9 := by
        by_contra hne
        have : (k+1)*p.divisor ≤ 9*p.divisor := Nat.mul_le_mul_right _ (by omega)
        omega
      rw [htx,hk9,Serial.frameBit_stop b (by omega)]
    | @busy hb u' b' hu' hlast _ hd ht _ htx =>
      rw [htx]
      rcases Nat.eq_or_lt_of_le (hlast u b hu (by omega)) with rfl | hlt
      · have hbit : (run p x t).bitQ.toNat = k+1 := by
          rcases Nat.lt_trichotomy (run p x t).bitQ.toNat (k+1) with h1 | h1 | h1
          · have := Nat.mul_le_mul_right p.divisor (show (run p x t).bitQ.toNat ≤ k by omega)
            omega
          · exact h1
          · have h2 := Nat.mul_le_mul_right p.divisor
              (show k+2 ≤ (run p x t).bitQ.toNat by omega)
            have h3 : (k+2)*p.divisor = (k+1)*p.divisor+p.divisor := Nat.succ_mul _ _
            omega
        rw [hbit,Option.some.inj (hu.symm.trans hu')]
        simp
      · -- the next byte waits for its first tick behind the stop bit
        have hafter := accepted_apart x hD hu hu' hlt
        have hk9 : k = 9 := by
          by_contra hne
          have : (k+1)*p.divisor ≤ 9*p.divisor := Nat.mul_le_mul_right _ (by omega)
          omega
        have hbit : (run p x t).bitQ.toNat = 0 := by
          by_contra hne
          have := Nat.mul_le_mul_right p.divisor (show 1 ≤ (run p x t).bitQ.toNat by omega)
          rw [hk9] at hk1 hhi
          omega
        rw [hbit,hk9,Serial.frameBit_stop b (by omega)]
        rfl
  idle t hn := by
    cases run_tracks x hD t with
    | idle _ htx _ => exact htx
    | @busy hb u b hu _ hk hd ht _ htx =>
      have hbit : (run p x t).bitQ.toNat = 0 := by
        by_contra hne
        have h1 := Nat.mul_le_mul_right p.divisor (show 1 ≤ (run p x t).bitQ.toNat by omega)
        have h2 := Nat.mul_le_mul_right p.divisor
          (show (run p x t).bitQ.toNat ≤ 9 by omega)
        have h3 := hn (u+latency p) b (by rw [Clocked.delayed_add,hu]) (by rw [latency]; omega)
        rw [latency] at h3
        omega
      rw [htx,hbit]
      rfl

end run

end UartTx

/-! ### The link -/

namespace UartLink

variable {p : UartParams}

def rxIn (p : UartParams) (x : Nat → UartTx.In) (ack overrunClr : Nat → Bool) (t : Nat) :
    UartRx.In :=
  ⟨(UartTx.run p x t).tx,ack t,overrunClr t⟩

def latency (p : UartParams) : Nat := UartTx.latency p+UartRx.latency p

theorem round_trip (hD : 3 ≤ p.divisor) (x : Nat → UartTx.In) (ack overrunClr : Nat → Bool) :
    let acc := UartTx.accepted p x
    let y := rxIn p x ack overrunClr
    Serial.Carries p.divisor (Clocked.delayed (UartTx.latency p) acc)
      (fun t => (UartTx.run p x t).tx) ∧
    ((∀ u u' b b', acc u = some b → acc u' = some b' → u < u' →
        ∃ v, u+latency p < v ∧ v ≤ u'+latency p ∧ ack v = true) →
      ∀ t, UartRx.presented p y (t+latency p) = Clocked.events acc t ∧
        (UartRx.run p y t).overrun = false) := by
  intro acc y
  have hc : Serial.Carries p.divisor (Clocked.delayed (UartTx.latency p) acc)
      fun t => (y t).rx := UartTx.run_carries x (by omega)
  have hs : UartRx.Samples p p.divisor := ⟨by omega,by omega⟩
  refine ⟨hc,fun hack => ?_⟩
  have ht : UartRx.InTime p (Clocked.delayed (UartTx.latency p) acc) fun t => (y t).ack := by
    intro f f' b b' hf hf' hlt
    obtain ⟨u,rfl,hu⟩ := Clocked.delayed_eq_some.mp hf
    obtain ⟨u',rfl,hu'⟩ := Clocked.delayed_eq_some.mp hf'
    obtain ⟨v,h1,h2,h3⟩ := hack u u' b b' hu hu' (by omega)
    rw [latency] at h1 h2
    exact ⟨v,by omega,by omega,h3⟩
  refine fun t => ⟨?_,UartRx.no_overrun hc hs ht t⟩
  rw [latency,← Nat.add_assoc,UartRx.presented_all hc hs ht,Clocked.events_delayed]

/-- A byte every cycle offered to the transmitter, every byte acknowledged at once. -/
theorem round_trip_full : UartRx.presented ⟨3,1⟩
    (rxIn ⟨3,1⟩ (fun _ => ⟨0x5A,true⟩) (fun _ => true) fun _ => false) (40+latency ⟨3,1⟩) =
      Clocked.events (UartTx.accepted ⟨3,1⟩ fun _ => ⟨0x5A,true⟩) 40 :=
  ((round_trip (p := ⟨3,1⟩) (by decide) (fun _ => ⟨0x5A,true⟩) (fun _ => true)
    fun _ => false).2 (fun _ u' _ _ _ _ hlt =>
      ⟨u'+latency ⟨3,1⟩,Nat.add_lt_add_right hlt _,Nat.le_refl _,rfl⟩) 40).1

end UartLink

end Rvntt
