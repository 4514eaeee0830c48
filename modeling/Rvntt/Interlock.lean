import Rvntt.Pipeline
set_option autoImplicit false

/-!
The load-use interlock against the redirect. Both look at the instruction in EX,
but the interlock does not ask whether it leaves EX normally.
-/

namespace Rvntt

def readsReg (insn : Word) (r : BitVec 5) : Bool :=
  ((decode insn).usesRs1 && rs1Field insn == r) || ((decode insn).usesRs2 && rs2Field insn == r)

def isLoad (insn : Word) : Bool := (decode insn).memRead

def loadUse (insn next : Word) : Bool :=
  isLoad insn && rdField insn != 0 && readsReg next (rdField insn)

def accessBytes (f3 : BitVec 3) : Nat :=
  if f3 = f3Lw then 4 else if f3 = f3Lh ∨ f3 = f3Lhu then 2 else 1

theorem Ex.addrMisaligned_iff (x : Ex) :
    x.addrMisaligned = true ↔ x.memAddr.toNat % accessBytes x.q.ctrl.memOp ≠ 0 := by
  unfold Ex.addrMisaligned accessBytes
  have h1 : x.memAddr.getLsbD 0 = decide (x.memAddr.toNat % 2 = 1) := by
    simp [BitVec.getLsbD]
  have h2 : (x.memAddr.extractLsb' 0 2 != 0) = decide (x.memAddr.toNat % 4 ≠ 0) := by
    rw [Bool.eq_iff_iff,bne_iff_ne,decide_eq_true_iff,ne_eq,ne_eq,BitVec.toNat_eq]
    simp [BitVec.extractLsb'_toNat]
  split
  · rename_i h
    have hw : x.q.ctrl.memOp ≠ f3Lw := by rcases h with h | h <;> rw [h] <;> decide
    rw [if_neg hw,h1,decide_eq_true_iff]
    omega
  split
  · simp only [h2,decide_eq_true_eq]
  · simp [Nat.mod_one]

namespace Core

/-- A load does one of two things to the front end: nothing, or a redirect for a
misaligned address or for having been taken for a transfer. -/
theorem load_redirect {s : State} (hv : s.idExQ.valid = true) (hd : Decoded s.idExQ)
    (hm : s.idExQ.ctrl.memRead = true) :
    exRedirect s = ((ex s).addrMisaligned || s.idExQ.predTaken) := by
  have hc : s.idExQ.ctrl = ctrlLoad (funct3 s.idExQ.insn) :=
    (hd.ctrl ▸ decode_shape _).memRead_eq hm
  have hq : (ex s).q = s.idExQ := rfl
  have hs : exStall s = false := by simp [exStall,exMdReq,hc,ctrlLoad]
  have hx : (ex s).ctrlXfer = false := by simp [Ex.ctrlXfer,hq,hc,ctrlLoad]
  have ht : (ex s).trap = (ex s).addrMisaligned := by
    simp only [Ex.trap,Ex.trapInfo,hq,hv,hc,ctrlLoad,Ex.targetMisaligned,hx]
    cases (ex s).addrMisaligned <;> simp
  have hp : (ex s).mispredict = s.idExQ.predTaken := by simp [Ex.mispredict,hx,hq,hv]
  have hr : (ex s).mret = false := by simp [Ex.mret,hq,hc,ctrlLoad]
  simp [exRedirect,hs,exTrap,ht,hr,exMispredict,hp]

/-- The assertion `a_stalls_are_disjoint`. -/
theorem stalls_disjoint {s : State} (i : In) (hd : s.idExQ.valid = true → Decoded s.idExQ)
    (hl : idStall s i = true) : exStall s = false := by
  obtain ⟨_,hv,hm,_⟩ := idStall_parts hl
  have hc : s.idExQ.ctrl = ctrlLoad (funct3 s.idExQ.insn) :=
    ((hd hv).ctrl ▸ decode_shape _).memRead_eq hm
  simp [exStall,exMdReq,hc,ctrlLoad]

theorem idStall_iff {s : State} (i : In) (hd : s.idExQ.valid = true → Decoded s.idExQ) :
    idStall s i = true ↔ s.ifIdQ.valid = true ∧ s.idExQ.valid = true ∧
      loadUse s.idExQ.insn (ifId s i).insn = true := by
  cases hv : s.idExQ.valid with
  | false => simp [idStall,hazard,hv]
  | true =>
    have h := hd hv
    simp [idStall,hazard,loadUse,isLoad,readsReg,idCtrl,hv,h.ctrl,h.rdAddr,and_assoc]

theorem loaduse_one_bubble {s : State} {i : In} (hs : exStall s = false)
    (hr : exRedirect s = false) (hl : idStall s i = true) :
    (next s i).idExQ.valid = false ∧ ∀ j, (next (next s i) j).idExQ.valid = true := by
  cases edge s i with
  | hold h => rw [hs] at h; cases h
  | redirect _ h => rw [hr] at h; cases h
  | advance _ _ h => rw [hl] at h; cases h
  | loaduse _ _ _ _ hid _ hex _ =>
    have hv : (next s i).idExQ.valid = false := by rw [hex]
    refine ⟨hv,fun j => ?_⟩
    have hs' : exStall (next s i) = false := by simp [exStall,exMdReq,hv]
    have hr' : exRedirect (next s i) = false := by
      cases h : exRedirect (next s i) with
      | false => rfl
      | true => rw [exRedirect_valid h] at hv; cases hv
    have hl' : idStall (next s i) j = false := by simp [idStall,hazard,hv]
    cases edge (next s i) j with
    | hold h => rw [hs'] at h; cases h
    | redirect _ h => rw [hr'] at h; cases h
    | loaduse _ _ h => rw [hl'] at h; cases h
    | advance _ _ _ _ _ _ hex' _ =>
      rw [hex']
      change (next s i).ifIdQ.valid = true
      rw [hid]
      exact (idStall_parts hl).1

/-- A redirect flushes the reader as well: the bubble of a load-use cycle on the
same edge is followed by another. -/
theorem redirect_two_bubbles {s : State} {i : In} (hr : exRedirect s = true) (j : In) :
    (next (next s i) j).idExQ.valid = false := by
  have hs := exRedirect_not_stall hr
  cases edge s i with
  | hold h => rw [hs] at h; cases h
  | loaduse _ h => rw [hr] at h; cases h
  | advance _ h => rw [hr] at h; cases h
  | redirect _ _ _ hid _ hex _ =>
    have hid' : (next s i).ifIdQ.valid = false := by rw [hid]
    have hex' : (next s i).idExQ.valid = false := by rw [hex]
    cases edge (next s i) j with
    | hold h => rw [exStall,exMdReq,hex'] at h; cases h
    | redirect _ _ _ _ _ h _ => rw [h]
    | loaduse _ _ _ _ _ _ h _ => rw [h]
    | advance _ _ _ _ _ _ h _ => rw [h]; exact hid'

/-! ### Stall and redirect in one cycle -/

/-- No cycle stalls the front end and redirects it; a load-use event is charged to
no redirect, and costs one bubble. -/
structure StallsApart (s : State) (i : In) : Prop where
  exclusive : ¬(frontStall s i = true ∧ exRedirect s = true)
  chargedOnce : ¬(evLoaduse s i = true ∧ exRedirect s = true)
  oneBubble : evLoaduse s i = true →
    (next s i).idExQ.valid = false ∧ ∀ j, (next (next s i) j).idExQ.valid = true

structure RedirectingLoadUse (s : State) (i : In) : Prop where
  idValid : s.ifIdQ.valid = true
  exValid : s.idExQ.valid = true
  dependent : loadUse s.idExQ.insn (ifId s i).insn = true
  leaves : s.idExQ.predTaken = true ∨
    (exRs1Fwd s+s.idExQ.imm).toNat % accessBytes (funct3 s.idExQ.insn) ≠ 0

theorem redirectingLoadUse_iff {s : State} (i : In)
    (hd : s.idExQ.valid = true → Decoded s.idExQ) :
    RedirectingLoadUse s i ↔ idStall s i = true ∧ exRedirect s = true := by
  have hleave : idStall s i = true → (exRedirect s = true ↔ s.idExQ.predTaken = true ∨
      (exRs1Fwd s+s.idExQ.imm).toNat % accessBytes (funct3 s.idExQ.insn) ≠ 0) := by
    intro hl
    obtain ⟨_,hv,hm,_⟩ := idStall_parts hl
    have hc : s.idExQ.ctrl = ctrlLoad (funct3 s.idExQ.insn) :=
      ((hd hv).ctrl ▸ decode_shape _).memRead_eq hm
    have hop : (ex s).q.ctrl.memOp = funct3 s.idExQ.insn := congrArg Ctrl.memOp hc
    rw [load_redirect hv (hd hv) hm,Bool.or_eq_true,Ex.addrMisaligned_iff,hop,or_comm]
    rfl
  constructor
  · rintro ⟨h1,h2,h3,h4⟩
    have hl := (idStall_iff i hd).mpr ⟨h1,h2,h3⟩
    exact ⟨hl,(hleave hl).mpr h4⟩
  · rintro ⟨hl,hr⟩
    obtain ⟨h1,h2,h3⟩ := (idStall_iff i hd).mp hl
    exact ⟨h1,h2,h3,(hleave hl).mp hr⟩

/-- In every cycle of every run the two are apart exactly if EX does not hold a
redirecting load with its reader behind it. -/
theorem stallsApart_iff (resetPc : Word) (x : Nat → In) (t : Nat) :
    StallsApart (run resetPc x t) (x t) ↔ ¬RedirectingLoadUse (run resetPc x t) (x t) := by
  have hd := run_decoded resetPc x t
  rw [redirectingLoadUse_iff (x t) hd]
  constructor
  · rintro h ⟨hl,hr⟩
    exact h.exclusive ⟨by simp [frontStall,hl],hr⟩
  · intro h
    refine ⟨?_,?_,?_⟩
    · rintro ⟨hf,hr⟩
      rw [frontStall,exRedirect_not_stall hr,Bool.or_false] at hf
      exact h ⟨hf,hr⟩
    · rintro ⟨he,hr⟩
      simp only [evLoaduse,Bool.and_eq_true] at he
      exact h ⟨he.1,hr⟩
    · intro he
      simp only [evLoaduse,Bool.and_eq_true,Bool.not_eq_true'] at he
      refine loaduse_one_bubble he.2 ?_ he.1
      by_contra hr
      exact h ⟨he.1,by simpa using hr⟩

/-- `lw x1,1(x0)` then `add x2,x1,x1`, fetched from reset: the load is in EX and
the addition in ID in cycle 2. -/
def misalignedLoad (t : Nat) : In where
  imemRdata := if t = 1 then 0x00102083 else 0x00108133
  dmemRdata := 0
  stubBit := false
  pred := {}

theorem stallsApart_misalignedLoad :
    ¬StallsApart (run 0x80000000 misalignedLoad 2) (misalignedLoad 2) :=
  fun h => h.exclusive (by decide)

end Core

end Rvntt
