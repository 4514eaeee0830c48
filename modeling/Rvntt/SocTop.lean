import Mathlib.Algebra.Group.Nat.Defs
import Rvntt.Assertions
import Rvntt.Mmio
set_option autoImplicit false

/-!
`rvntt_soc_top`: the core with its predictor, the memory and the peripherals, and beside
them the stub of the noise source, the synchronisers and the status LEDs.
-/

namespace Rvntt.SocTop

/-- The core starts where the memory does, on the clock of `soc_clk.svh`. -/
structure Params extends Mmio.Params where
  clkHz := 96250000
  entropyStub : Bool := false
  heartbeatDiv : Nat := clkHz/2

variable {p : Params} {aw : Nat}

def hbW (p : Params) : Nat := Nat.clog 2 (p.heartbeatDiv+1)

structure State (p : Params) (aw : Nat) where
  cpu : Predicted.State
  bus : Bus.State p.toParams aw
  stubLfsrQ : BitVec 16 := 0xACE1
  swMetaQ : BitVec 4 := 0
  swSyncQ : BitVec 4 := 0
  btnMetaQ : BitVec 4 := 0
  btnSyncQ : BitVec 4 := 0
  hbCnt : BitVec (hbW p) := 0
  hbQ : Bool := false
  aliveQ : Bool := false
  errQ : Bool := false

/-- The pins, and the bit that the ring oscillators are sampled at. -/
structure In where
  uartTxdIn : Bool := true
  sw : BitVec 4 := 0
  btn : BitVec 4 := 0
  ringBit : Bool := false

def lfsrNext (q : BitVec 16) : BitVec 16 :=
  q.extractLsb' 0 15 ++
    BitVec.ofBool (q.getLsbD 15 ^^ q.getLsbD 13 ^^ q.getLsbD 12 ^^ q.getLsbD 10)

def noiseBit (s : State p aw) (i : In) : Bool :=
  if p.entropyStub then s.stubLfsrQ.getLsbD 0 else i.ringBit

def cpuIn (s : State p aw) (i : In) : Predicted.In where
  imemRdata := s.bus.ram.rdataA
  dmemRdata := Bus.rdata s.bus
  stubBit := noiseBit s i

def access (s : State p aw) : Mmio.Access where
  addr := Core.dmemAddr s.cpu.core
  wdata := (Core.ex s.cpu.core).dmemWdata
  be := (Core.ex s.cpu.core).dmemBe

def pins (s : State p aw) (i : In) : Mmio.Pins := ⟨i.uartTxdIn,s.swSyncQ,s.btnSyncQ⟩

def busIn (s : State p aw) (i : In) : Bus.In := ⟨access s,pins s i,Core.imemAddr s.cpu.core⟩

def hbWrap (s : State p aw) : Bool := s.hbCnt == BitVec.ofNat (hbW p) (p.heartbeatDiv-1)

def next (s : State p aw) (i : In) : State p aw where
  cpu := Predicted.next s.cpu (cpuIn s i)
  bus := Bus.next s.bus (busIn s i)
  stubLfsrQ := lfsrNext s.stubLfsrQ
  swMetaQ := i.sw
  swSyncQ := s.swMetaQ
  btnMetaQ := i.btn
  btnSyncQ := s.btnMetaQ
  hbCnt := if hbWrap s then 0 else s.hbCnt+1
  hbQ := if hbWrap s then !s.hbQ else s.hbQ
  aliveQ := s.aliveQ || (Core.commit s.cpu.core).isSome
  errQ := s.errQ || Core.dbgUnsupported s.cpu.core

/-- Reset reaches neither the arrays of the predictor nor the memory. -/
def reset (p : Params) (w : Predicted.PowerUp) (ram : Ram aw) : State p aw where
  cpu := ⟨Core.reset p.ramBase,Bpred.reset w.btb w.ras⟩
  bus := {ram := ram}

def machine (p : Params) (w : Predicted.PowerUp) (ram : Ram aw) :
    Clocked.Machine (State p aw) In :=
  ⟨reset p w ram,next⟩

/-! ### Counting in periods -/

theorem wrap_succ {d t : Nat} (hd : 0 < d) (h : t % d+1 = d) :
    (t+1) % d = 0 ∧ (t+1)/d = t/d+1 := by
  have ht : t+1 = d*(t/d+1) := by
    have := Nat.div_add_mod t d
    rw [Nat.mul_succ]
    omega
  rw [ht,Nat.mul_mod_right,Nat.mul_div_right _ hd]
  exact ⟨rfl,rfl⟩

theorem keep_succ {d t : Nat} (h : t % d+1 < d) : (t+1) % d = t % d+1 ∧ (t+1)/d = t/d := by
  have ht : t+1 = d*(t/d)+(t % d+1) := by
    have := Nat.div_add_mod t d
    omega
  constructor
  · rw [ht,Nat.mul_add_mod,Nat.mod_eq_of_lt h]
  · rw [ht,Nat.mul_add_div (by omega),Nat.div_eq_of_lt h,Nat.add_zero]

section run

variable (p : Params) (w : Predicted.PowerUp) (ram : Ram aw) (x : Nat → In)

def run (t : Nat) : State p aw := (machine p w ram).run x t

def ports (t : Nat) : Core.In :=
  Predicted.coreIn (run p w ram x t).cpu (cpuIn (run p w ram x t) (x t))

theorem run_core (t : Nat) :
    (run p w ram x t).cpu.core = Core.run p.ramBase (ports p w ram x) t :=
  (machine p w ram).run_part (Core.machine p.ramBase) (fun s => s.cpu.core)
    (fun s i => Predicted.coreIn s.cpu (cpuIn s i)) rfl (fun _ _ => rfl) x t

/-! ### The status LEDs -/

def Retired (t : Nat) : Prop :=
  ∃ u < t, (Core.commit (Core.run p.ramBase (ports p w ram x) u)).isSome = true

theorem hb_run (hD : 0 < p.heartbeatDiv) (t : Nat) :
    (run p w ram x t).hbCnt.toNat = t % p.heartbeatDiv ∧
      (run p w ram x t).hbQ = decide (t/p.heartbeatDiv % 2 = 1) := by
  have hlt : p.heartbeatDiv < 2^hbW p := Nat.lt_of_succ_le (Nat.le_pow_clog (by omega) _)
  induction t with
  | zero => exact ⟨(Nat.zero_mod _).symm,by rw [Nat.zero_div]; rfl⟩
  | succ t ih =>
    obtain ⟨hc,hq⟩ := ih
    have hm := Nat.mod_lt t hD
    have hwrap : hbWrap (run p w ram x t) = true ↔ t % p.heartbeatDiv+1 = p.heartbeatDiv := by
      have hlast : (BitVec.ofNat (hbW p) (p.heartbeatDiv-1)).toNat = p.heartbeatDiv-1 :=
        (BitVec.toNat_ofNat _ _).trans (Nat.mod_eq_of_lt (by omega))
      rw [hbWrap,beq_iff_eq,← BitVec.toNat_inj,hc,hlast]
      omega
    change (if hbWrap (run p w ram x t) then 0 else (run p w ram x t).hbCnt+1).toNat = _ ∧
      (if hbWrap (run p w ram x t) then !(run p w ram x t).hbQ else (run p w ram x t).hbQ) = _
    by_cases hd : t % p.heartbeatDiv+1 = p.heartbeatDiv
    · obtain ⟨hmod,hdiv⟩ := wrap_succ hD hd
      rw [if_pos (hwrap.mpr hd),if_pos (hwrap.mpr hd),hmod,hdiv,hq,← decide_not,decide_eq_decide]
      exact ⟨rfl,by omega⟩
    · obtain ⟨hmod,hdiv⟩ := keep_succ (show t % p.heartbeatDiv+1 < p.heartbeatDiv by omega)
      have h1 : (1 : BitVec (hbW p)).toNat = 1 :=
        (BitVec.toNat_ofNat 1 _).trans (Nat.mod_eq_of_lt (by omega))
      rw [if_neg (mt hwrap.mp hd),if_neg (mt hwrap.mp hd),hmod,hdiv,hq,BitVec.toNat_add,hc,h1,
        Nat.mod_eq_of_lt (show t % p.heartbeatDiv+1 < 2^hbW p by omega)]
      exact ⟨rfl,rfl⟩

theorem alive_run (t : Nat) : (run p w ram x t).aliveQ = true ↔ Retired p w ram x t := by
  induction t with
  | zero =>
    constructor
    · intro h; cases h
    · rintro ⟨u,hu,_⟩
      omega
  | succ t ih =>
    change ((run p w ram x t).aliveQ ||
      (Core.commit (run p w ram x t).cpu.core).isSome) = true ↔ _
    rw [Bool.or_eq_true,ih,run_core]
    constructor
    · rintro (⟨u,hu,h⟩ | h)
      · exact ⟨u,Nat.lt_succ_of_lt hu,h⟩
      · exact ⟨t,Nat.lt_succ_self t,h⟩
    · rintro ⟨u,hu,h⟩
      rcases Nat.lt_succ_iff_lt_or_eq.mp hu with hu | rfl
      · exact .inl ⟨u,hu,h⟩
      · exact .inr h

theorem err_run (t : Nat) : (run p w ram x t).errQ = false := by
  induction t with
  | zero => rfl
  | succ t ih =>
    change ((run p w ram x t).errQ || Core.dbgUnsupported (run p w ram x t).cpu.core) = false
    rw [ih,run_core,Core.dbgUnsupported_run]
    rfl

/-- Green toggles every `HEARTBEAT_DIV` cycles, blue is on from the first retirement on,
and red, for an illegal instruction that retires, never. -/
theorem status_leds (hD : 0 < p.heartbeatDiv) (t : Nat) :
    (run p w ram x t).hbQ = decide (t/p.heartbeatDiv % 2 = 1) ∧
      ((run p w ram x t).aliveQ = true ↔ Retired p w ram x t) ∧ (run p w ram x t).errQ = false :=
  ⟨(hb_run p w ram x hD t).2,alive_run p w ram x t,err_run p w ram x t⟩

theorem status_leds_default :
    let s := run {} {} (⟨fun _ => 0,0,0⟩ : Ram 4) (fun _ => {}) 48125000
    s.hbQ = true ∧ (s.aliveQ = true ↔ Retired {} {} (⟨fun _ => 0,0,0⟩ : Ram 4) (fun _ => {})
      48125000) ∧ s.errQ = false := by
  obtain ⟨hhb,halive,herr⟩ :=
    status_leds {} {} (⟨fun _ => 0,0,0⟩ : Ram 4) (fun _ => {}) (by decide) 48125000
  exact ⟨hhb.trans (by decide),halive,herr⟩

/-! ### The stub of the noise source -/

theorem lfsrNext_low (q : BitVec 16) : (lfsrNext q).getLsbD 0 =
    (q.getLsbD 15 ^^ q.getLsbD 13 ^^ q.getLsbD 12 ^^ q.getLsbD 10) := by
  rw [lfsrNext,BitVec.getLsbD_append,if_pos (by omega),BitVec.getLsbD_ofBool]
  rfl

theorem lfsrNext_high (q : BitVec 16) {k : Nat} (hk : k < 15) :
    (lfsrNext q).getLsbD (k+1) = q.getLsbD k := by
  rw [lfsrNext,BitVec.getLsbD_append,if_neg (by omega),BitVec.getLsbD_extractLsb']
  simp [hk]

theorem lfsrNext_eq_zero {q : BitVec 16} (h : lfsrNext q = 0) : q = 0 := by
  have hlow : ∀ k < 15, q.getLsbD k = false := fun k hk => by
    rw [← lfsrNext_high q hk,h]
    exact BitVec.getLsbD_zero
  have hfb := lfsrNext_low q
  rw [h,hlow 13 (by omega),hlow 12 (by omega),hlow 10 (by omega)] at hfb
  have htop : q.getLsbD 15 = false := by simpa using hfb.symm
  refine BitVec.eq_of_getLsbD_eq fun k hk => ?_
  rw [BitVec.ofNat_eq_ofNat,BitVec.getLsbD_zero]
  rcases (by omega : k < 15 ∨ k = 15) with h | rfl
  · exact hlow k h
  · exact htop

theorem lfsr_bit (t : Nat) {k : Nat} (hk : k < 16) :
    (run p w ram x (t+k)).stubLfsrQ.getLsbD k = (run p w ram x t).stubLfsrQ.getLsbD 0 := by
  induction k with
  | zero => rfl
  | succ k ih =>
    rw [← ih (by omega)]
    exact lfsrNext_high _ (by omega)

theorem lfsr_ne_zero (t : Nat) : (run p w ram x t).stubLfsrQ ≠ 0 := by
  induction t with
  | zero => exact show (0xACE1 : BitVec 16) ≠ 0 by decide
  | succ t ih => exact fun h => ih (lfsrNext_eq_zero h)

/-- The stub is stuck at neither level. -/
theorem stub_live (t : Nat) :
    (∃ u, t ≤ u ∧ u < t+16 ∧ (run p w ram x u).stubLfsrQ.getLsbD 0 = true) ∧
      ∃ u, t ≤ u ∧ u < t+17 ∧ (run p w ram x u).stubLfsrQ.getLsbD 0 = false := by
  have hbit : ∀ k < 16, (run p w ram x (t+15)).stubLfsrQ.getLsbD k =
      (run p w ram x (t+15-k)).stubLfsrQ.getLsbD 0 := by
    intro k hk
    rw [← lfsr_bit p w ram x (t+15-k) hk,show t+15-k+k = t+15 by omega]
  constructor
  · by_contra hn
    refine lfsr_ne_zero p w ram x (t+15) (BitVec.eq_of_getLsbD_eq fun k hk => ?_)
    rw [hbit k hk,BitVec.ofNat_eq_ofNat,BitVec.getLsbD_zero]
    by_contra hk'
    exact hn ⟨t+15-k,by omega,by omega,by simpa using hk'⟩
  · by_contra hn
    have hone : ∀ k < 16, (run p w ram x (t+15)).stubLfsrQ.getLsbD k = true := by
      intro k hk
      rw [hbit k hk]
      by_contra hk'
      exact hn ⟨t+15-k,by omega,by omega,by simpa using hk'⟩
    -- sixteen ones feed back a zero
    refine hn ⟨t+16,by omega,by omega,?_⟩
    change (lfsrNext (run p w ram x (t+15)).stubLfsrQ).getLsbD 0 = false
    rw [lfsrNext_low,hone 15 (by omega),hone 13 (by omega),hone 12 (by omega),hone 10 (by omega)]
    rfl

end run

end Rvntt.SocTop
