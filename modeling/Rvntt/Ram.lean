import Rvntt.Operands
set_option autoImplicit false

/-!
`rvntt_ram` and `rvntt_core_sim_top`, the core on its memory. The predictor and the
noise bit stay inputs.
-/

namespace Rvntt

/-- `2^aw` words, and the output registers of the two ports. -/
structure Ram (aw : Nat) where
  mem : BitVec aw → Word
  rdataA : Word
  rdataB : Word

namespace Ram

variable {aw : Nat}

/-- The low two bits are dropped, and so is everything above the array. -/
def wordAddr (base addr : Word) : BitVec aw := (addr-base).extractLsb' 2 aw

def merge (old new : Word) (be : BitVec 4) : Word :=
  (if be.getLsbD 3 then new else old).extractLsb' 24 8 ++
    (if be.getLsbD 2 then new else old).extractLsb' 16 8 ++
    (if be.getLsbD 1 then new else old).extractLsb' 8 8 ++
    (if be.getLsbD 0 then new else old).extractLsb' 0 8

def store (mem : BitVec aw → Word) (i : BitVec aw) (wdata : Word) (be : BitVec 4) :
    BitVec aw → Word :=
  Function.update mem i (merge (mem i) wdata be)

/-- Both ports read the words as they were before the edge. -/
def next (base : Word) (r : Ram aw) (addrA addrB wdataB : Word) (beB : BitVec 4) : Ram aw where
  mem := store r.mem (wordAddr base addrB) wdataB beB
  rdataA := r.mem (wordAddr base addrA)
  rdataB := r.mem (wordAddr base addrB)

theorem merge_none (old new : Word) : merge old new 0 = old := by
  have h0 : ∀ k, (0 : BitVec 4).getLsbD k = false := fun k => by simp
  refine BitVec.eq_of_getLsbD_eq fun i hi => ?_
  simp only [merge,h0,Bool.false_eq_true,if_false,BitVec.getLsbD_append,
    BitVec.getLsbD_extractLsb']
  rcases (by omega : i < 8 ∨ (8 ≤ i ∧ i < 16) ∨ (16 ≤ i ∧ i < 24) ∨ 24 ≤ i) with h | h | h | h
  · simp [h]
  · simp [show ¬i < 8 by omega,show i-8 < 8 by omega,show 8+(i-8) = i by omega]
  · simp [show ¬i < 8 by omega,show ¬i-8 < 8 by omega,show i-8-8 < 8 by omega,
      show 16+(i-8-8) = i by omega]
  · simp [show ¬i < 8 by omega,show ¬i-8 < 8 by omega,show ¬i-8-8 < 8 by omega,
      show i-8-8-8 < 8 by omega,show 24+(i-8-8-8) = i by omega]

theorem store_none (mem : BitVec aw → Word) (i : BitVec aw) (wdata : Word) :
    store mem i wdata 0 = mem := by
  rw [store,merge_none,Function.update_eq_self]

end Ram

namespace SimTop

structure State (aw : Nat) where
  core : Core.State
  ram : Ram aw

structure In where
  stubBit : Bool
  pred : Pred

variable {aw : Nat}

def coreIn (s : State aw) (i : In) : Core.In where
  imemRdata := s.ram.rdataA
  dmemRdata := s.ram.rdataB
  stubBit := i.stubBit
  pred := i.pred

def next (base : Word) (s : State aw) (i : In) : State aw where
  core := Core.next s.core (coreIn s i)
  ram := s.ram.next base (Core.imemAddr s.core) (Core.dmemAddr s.core)
    (Core.ex s.core).dmemWdata (Core.ex s.core).dmemBe

/-- Reset does not touch the memory or its output registers. -/
def machine (base resetPc : Word) (ram : Ram aw) : Clocked.Machine (State aw) In :=
  ⟨⟨Core.reset resetPc,ram⟩,next base⟩

section run

variable (base resetPc : Word) (ram : Ram aw) (x : Nat → In)

def run (t : Nat) : State aw := (machine base resetPc ram).run x t

def ports (t : Nat) : Core.In := coreIn (run base resetPc ram x t) (x t)

theorem run_succ (t : Nat) :
    run base resetPc ram x (t+1) = next base (run base resetPc ram x t) (x t) := rfl

theorem run_core (t : Nat) : (run base resetPc ram x t).core =
    Core.run resetPc (ports base resetPc ram x) t :=
  (machine base resetPc ram).run_part (Core.machine resetPc) State.core coreIn rfl
    (fun _ _ => rfl) x t

def ReadBefore (t : Nat) (insn pc : Word) : Prop :=
  ∃ u, u ≤ t ∧ insn = (run base resetPc ram x u).ram.mem (Ram.wordAddr base pc)

theorem ReadBefore.mono {t u : Nat} {insn pc : Word} (htu : t ≤ u)
    (h : ReadBefore base resetPc ram x t insn pc) : ReadBefore base resetPc ram x u insn pc := by
  obtain ⟨v,hv,hi⟩ := h
  exact ⟨v,Nat.le_trans hv htu,hi⟩

/-- The words in ID and EX were read from their own addresses, whatever held them
since. -/
structure Words (t : Nat) (s : Core.State) (i : Core.In) : Prop where
  id : s.ifIdQ.valid = true →
    ReadBefore base resetPc ram x t (Core.ifId s i).insn s.ifIdQ.pc
  ex : s.idExQ.valid = true → ReadBefore base resetPc ram x t s.idExQ.insn s.idExQ.pc

theorem run_words (t : Nat) : Words base resetPc ram x t
    (Core.run resetPc (ports base resetPc ram x) t) (ports base resetPc ram x t) := by
  induction t with
  | zero =>
    constructor
    · intro h; cases h
    · intro h; cases h
  | succ t ih =>
    have hold : ∀ {s' : Core.State} {j : Core.In}, s'.insnHeldQ = true →
        s'.insnHoldQ = (Core.ifId (Core.run resetPc (ports base resetPc ram x) t)
          (ports base resetPc ram x t)).insn →
        (Core.ifId s' j).insn = (Core.ifId (Core.run resetPc (ports base resetPc ram x) t)
          (ports base resetPc ram x t)).insn := by
      intro s' j hh hw
      simp only [Core.ifId,hh,if_true,hw]
    rw [Core.run_next]
    cases Core.edge (Core.run resetPc (ports base resetPc ram x) t)
        (ports base resetPc ram x t) with
    | hold hs _ hid hh hex _ =>
      refine ⟨fun h => ?_,fun h => ?_⟩
      · rw [hid] at h ⊢
        rw [hold hh rfl]
        exact (ih.id h).mono base resetPc ram x (Nat.le_succ t)
      · rw [hex] at h ⊢
        exact (ih.ex h).mono base resetPc ram x (Nat.le_succ t)
    | redirect _ _ _ hid _ hex _ =>
      refine ⟨fun h => ?_,fun h => ?_⟩
      · rw [hid] at h; cases h
      · rw [hex] at h; cases h
    | loaduse _ _ _ _ hid hh hex _ =>
      refine ⟨fun h => ?_,fun h => ?_⟩
      · rw [hid] at h ⊢
        rw [hold hh rfl]
        exact (ih.id h).mono base resetPc ram x (Nat.le_succ t)
      · rw [hex] at h; cases h
    | advance _ _ _ _ hid hh hex _ =>
      refine ⟨fun _ => ⟨t,Nat.le_succ t,?_⟩,fun h => ?_⟩
      · rw [hid]
        simp only [Core.ifId,hh,Bool.false_eq_true,if_false]
        -- port A read the word at `pc_q` on the edge that moved `pc_q` to IF/ID
        have hpc : (run base resetPc ram x t).core.pcQ =
            (Core.run resetPc (ports base resetPc ram x) t).pcQ := by rw [run_core]
        exact congrArg (fun a => (run base resetPc ram x t).ram.mem (Ram.wordAddr base a)) hpc
      · rw [hex] at h ⊢
        exact (ih.id h).mono base resetPc ram x (Nat.le_succ t)

end run

end SimTop

end Rvntt
