import Rvntt.Bpred
import Rvntt.Timing
set_option autoImplicit false

/-!
`rvntt_core` with `rvntt_bpred` in front of its fetch, and what holding the
registered prediction through a stall does to it.
-/

namespace Rvntt.Predicted

open Core (ex exRedirect exStall frontStall predNext)

structure State where
  core : Core.State
  bpred : Bpred.State 8 3

structure In where
  imemRdata : Word
  dmemRdata : Word
  stubBit : Bool

def coreIn (s : State) (i : In) : Core.In :=
  ⟨i.imemRdata,i.dmemRdata,i.stubBit,Bpred.pred s.bpred⟩

/-- The address fetched next if nothing redirects or stalls. -/
def lookupPc (s : State) : Word := predNext s.bpred.predTakenQ s.bpred.predTargetQ s.core.pcQ

def resolved (s : Core.State) : Bpred.Update where
  valid := Core.exBpUpd s
  pc := s.idExQ.pc
  kind := (ex s).bpKind
  taken := (ex s).ctrlXfer
  target := (ex s).jumpTarget

def bpredIn (s : State) (i : In) : Bpred.In where
  lookupPc := lookupPc s
  flush := exRedirect s.core
  hold := frontStall s.core (coreIn s i)
  upd := resolved s.core

def next (s : State) (i : In) : State where
  core := Core.next s.core (coreIn s i)
  bpred := Bpred.next s.bpred (bpredIn s i)

/-- What the two arrays of the predictor hold before the first write to them. -/
structure PowerUp where
  btb : BitVec 8 → Bpred.Entry 8 := fun _ => 0
  ras : BitVec 3 → Word := fun _ => 0

def machine (resetPc : Word) (p : PowerUp) : Clocked.Machine State In :=
  ⟨⟨Core.reset resetPc,Bpred.reset p.btb p.ras⟩,next⟩

abbrev run (resetPc : Word) (p : PowerUp) (x : Nat → In) (t : Nat) : State :=
  (machine resetPc p).run x t

def ports (resetPc : Word) (p : PowerUp) (x : Nat → In) (t : Nat) : Core.In :=
  coreIn (run resetPc p x t) (x t)

def held (s : State) : Option Word :=
  if s.bpred.predTakenQ then some s.bpred.predTargetQ else none

/-! ### One edge -/

theorem answer_next (s : State) (i : In) (pc : Word) : Bpred.answer (next s i).bpred pc =
    Bpred.answer (Bpred.update s.bpred (resolved s.core)) pc := by
  rw [next,Bpred.next]
  by_cases h : (!(bpredIn s i).hold || (bpredIn s i).flush) = true
  · rw [if_pos h]; rfl
  · rw [if_neg h]; rfl

theorem rasCnt_next (s : State) (i : In) : (next s i).bpred.rasCntQ =
    (Bpred.update s.bpred (resolved s.core)).rasCntQ := by
  rw [next,Bpred.next]
  by_cases h : (!(bpredIn s i).hold || (bpredIn s i).flush) = true
  · rw [if_pos h]; rfl
  · rw [if_neg h]; rfl

theorem lookup_next {s : State} {i : In} (hf : frontStall s.core (coreIn s i) = false)
    (hr : exRedirect s.core = false) : held (next s i) = Bpred.answer s.bpred (lookupPc s) := by
  simp [next,Bpred.next,bpredIn,hf,hr,held,Bpred.answer]

theorem flush_next {s : State} {i : In} (hr : exRedirect s.core = true) :
    held (next s i) = none := by
  simp [next,Bpred.next,bpredIn,hr,held]

theorem hold_next {s : State} {i : In} (hf : frontStall s.core (coreIn s i) = true)
    (hr : exRedirect s.core = false) : held (next s i) = held s := by
  simp [next,Bpred.next,bpredIn,hf,hr,held,Bpred.update]

theorem update_of_not_valid (s : Bpred.State 8 3) {u : Bpred.Update} (h : u.valid = false) :
    Bpred.update s u = s := by
  simp [Bpred.update,Bpred.btbWe,Bpred.upCall,Bpred.upRet,h]

/-- A stall that is not also a redirect has no transfer in EX. -/
theorem quiet_of_stall {s : Core.State} {i : Core.In}
    (hd : s.idExQ.valid = true → Core.Decoded s.idExQ) (hf : frontStall s i = true) :
    (resolved s).valid = false := by
  by_cases hs : exStall s = true
  · simp [resolved,Core.exBpUpd,hs]
  · have hl : Core.idStall s i = true := by simpa [frontStall,hs] using hf
    obtain ⟨_,hv,hm,_⟩ := Core.idStall_parts hl
    have hc := ((hd hv).ctrl ▸ decode_shape _).memRead_eq hm
    simp [resolved,Core.exBpUpd,hc,ctrlLoad]

section run

variable (resetPc : Word) (p : PowerUp) (x : Nat → In)

theorem run_succ (t : Nat) :
    run resetPc p x (t+1) = next (run resetPc p x t) (x t) := rfl

theorem run_core (t : Nat) : (run resetPc p x t).core =
    Core.run resetPc (ports resetPc p x) t :=
  (machine resetPc p).run_part (Core.machine resetPc) State.core coreIn rfl (fun _ _ => rfl) x t

theorem run_decoded (t : Nat) (hv : (run resetPc p x t).core.idExQ.valid = true) :
    Core.Decoded (run resetPc p x t).core.idExQ := by
  rw [run_core] at hv ⊢
  exact Core.run_decoded resetPc _ t hv

theorem run_rasCnt (t : Nat) : (run resetPc p x t).bpred.rasCntQ.toNat ≤ 2^3 := by
  refine (machine resetPc p).invariant (fun s => s.bpred.rasCntQ.toNat ≤ 2^3) (Nat.zero_le _) ?_ x t
  intro s i h
  change (next s i).bpred.rasCntQ.toNat ≤ 2^3
  rw [rasCnt_next]
  exact (Bpred.stack_update h _).2

/-! ### Holding a prediction -/

/-- The front end waits in cycle `t`: the prediction is held and the fetch address
stands. -/
def Holding (t : Nat) : Prop :=
  frontStall (run resetPc p x t).core (ports resetPc p x t) = true ∧
    exRedirect (run resetPc p x t).core = false

/-- The front end waits in `n+1` cycles, the first of which follows cycle `t`. -/
structure Stall (t n : Nat) : Prop where
  before : ¬Holding resetPc p x t
  holding : ∀ u, t < u → u ≤ t+n+1 → Holding resetPc p x u

/-- The held prediction is what a lookup of the waiting address would say now. -/
def Identity (t : Nat) : Prop :=
  held (run resetPc p x t) = Bpred.answer (run resetPc p x t).bpred (run resetPc p x t).core.pcQ

variable {resetPc p x}

theorem holding_next {t : Nat} (h : Holding resetPc p x t) :
    (run resetPc p x (t+1)).core.pcQ = (run resetPc p x t).core.pcQ ∧
    (Identity resetPc p x (t+1) ↔ Identity resetPc p x t) := by
  obtain ⟨hf,hr⟩ := h
  have hpc : (run resetPc p x (t+1)).core.pcQ = (run resetPc p x t).core.pcQ := by
    change Core.pcNext _ _ = _
    rw [Core.pcNext,hr,if_neg (by simp)]
    exact if_pos hf
  have hq := quiet_of_stall (run_decoded resetPc p x t) hf
  refine ⟨hpc,?_⟩
  rw [Identity,Identity,hpc,run_succ,hold_next hf hr,answer_next,update_of_not_valid _ hq]

theorem Stall.advance {t n : Nat} (h : Stall resetPc p x t n) :
    frontStall (run resetPc p x t).core (ports resetPc p x t) = false ∧
      exRedirect (run resetPc p x t).core = false := by
  have hr : exRedirect (run resetPc p x t).core = false := by
    by_contra hr
    have hf := (h.holding (t+1) (by omega) (by omega)).1
    have hc : (run resetPc p x (t+1)).core =
        Core.next (run resetPc p x t).core (ports resetPc p x t) := rfl
    cases Core.edge (run resetPc p x t).core (ports resetPc p x t) with
    | hold hs => exact hr (by simp [exRedirect,hs])
    | redirect _ _ _ hid _ hex _ =>
      simp [frontStall,Core.idStall,hazard,Core.ifId,exStall,Core.exMdReq,hc,hid,hex] at hf
    | loaduse _ h => exact hr h
    | advance _ h => exact hr h
  refine ⟨?_,hr⟩
  by_contra hf
  exact h.before ⟨by simpa using hf,hr⟩

/-- In every cycle of every stall the held prediction is the fresh one exactly if
the transfer resolving in EX in the cycle before the stall does not disturb the
lookup of the address about to wait. -/
theorem identity_iff {t n : Nat} (h : Stall resetPc p x t n) :
    Identity resetPc p x (t+n+1) ↔
      ¬Bpred.Disturbs (run resetPc p x t).bpred (resolved (run resetPc p x t).core)
        (lookupPc (run resetPc p x t)) := by
  induction n with
  | zero =>
    obtain ⟨hf,hr⟩ := h.advance
    have hpc : (run resetPc p x (t+1)).core.pcQ = lookupPc (run resetPc p x t) := by
      change Core.pcNext _ _ = _
      rw [Core.pcNext,hr,if_neg (by simp)]
      exact if_neg (Bool.not_eq_true _ ▸ hf)
    rw [Nat.add_zero,Identity,hpc,run_succ,lookup_next hf hr,answer_next,eq_comm]
    exact Bpred.answer_update_iff (run_rasCnt resetPc p x t) _ _
  | succ n ih =>
    have hlast := h.holding (t+n+1) (by omega) (by omega)
    rw [show t+(n+1)+1 = t+n+1+1 by omega,(holding_next hlast).2]
    exact ih ⟨h.before,fun u h1 h2 => h.holding u h1 (by omega)⟩

end run

/-! ### Code that nothing modifies -/

namespace Rom

/-- The instruction port has `rvntt_ram`'s output register. -/
structure State where
  soc : Predicted.State
  imemQ : Word

structure In where
  dmemRdata : Word := 0
  stubBit : Bool := false

structure Image where
  word : Word → Word
  /-- The output register, which has no reset. -/
  imem : Word := 0

def socIn (s : State) (i : In) : Predicted.In := ⟨s.imemQ,i.dmemRdata,i.stubBit⟩

def next (img : Image) (s : State) (i : In) : State where
  soc := Predicted.next s.soc (socIn s i)
  imemQ := img.word (Core.imemAddr s.soc.core)

def machine (img : Image) (resetPc : Word) (p : PowerUp) : Clocked.Machine State In :=
  ⟨⟨(Predicted.machine resetPc p).init,img.imem⟩,next img⟩

section run

variable (img : Image) (resetPc : Word) (p : PowerUp) (x : Nat → In)

abbrev run (t : Nat) : State := (machine img resetPc p).run x t

def feed (t : Nat) : Predicted.In := socIn (run img resetPc p x t) (x t)

theorem run_succ (t : Nat) :
    run img resetPc p x (t+1) = next img (run img resetPc p x t) (x t) := rfl

theorem run_soc (t : Nat) : (run img resetPc p x t).soc =
    Predicted.run resetPc p (feed img resetPc p x) t :=
  (machine img resetPc p).run_part (Predicted.machine resetPc p) State.soc socIn rfl
    (fun _ _ => rfl) x t

end run

end Rom

/-- From `0x80000000`: `jal x1,8`, `jal x0,-4`, `lw x5,0(x0)`, `add x6,x5,x5`, and
`jalr x0,0(x1)` from there on. -/
def callLoad : Rom.Image where
  word pc :=
    if pc = 0x80000000 then 0x008000EF
    else if pc = 0x80000004 then 0xFFDFF06F
    else if pc = 0x80000008 then 0x00002283
    else if pc = 0x8000000C then 0x00528333
    else 0x00008067

/-- Under the first load-use stall the waiting return has no entry yet. -/
theorem identity_iff_callLoad : ¬Bpred.Disturbs
    (run 0x80000000 {} (Rom.feed callLoad 0x80000000 {} fun _ => {}) 4).bpred
    (resolved (run 0x80000000 {} (Rom.feed callLoad 0x80000000 {} fun _ => {}) 4).core)
    (lookupPc (run 0x80000000 {} (Rom.feed callLoad 0x80000000 {} fun _ => {}) 4)) :=
  (identity_iff (n := 0)
    ⟨by unfold Holding; decide +kernel,fun u h1 h2 => by
      obtain rfl : u = 5 := by omega
      unfold Holding
      decide +kernel⟩).mp (by unfold Identity; decide +kernel)

/-- The third time round the call was predicted, and pushes in the cycle before the
stall, in which the return was looked up. -/
theorem identity_fails_callLoad :
    Stall 0x80000000 {} (Rom.feed callLoad 0x80000000 {} fun _ => {}) 22 0 ∧
    ¬Identity 0x80000000 {} (Rom.feed callLoad 0x80000000 {} fun _ => {}) 23 := by
  refine ⟨⟨?_,fun u h1 h2 => ?_⟩,?_⟩
  · unfold Holding
    decide +kernel
  · obtain rfl : u = 23 := by omega
    unfold Holding
    decide +kernel
  · unfold Identity
    decide +kernel

end Rvntt.Predicted
