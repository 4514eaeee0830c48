import Mathlib.Algebra.Group.Nat.Defs
import Rvntt.Conformance
set_option autoImplicit false

/-!
The data port as a byte-addressed memory: store lanes, word array and aligner, against
the byte most recently stored.
-/

namespace Rvntt

open Isa Core

variable {aw : Nat}

/-! ### What the program means -/

inductive Access where
  | idle
  | load (op : LoadOp) (a : Word)
  | store (op : StoreOp) (a v : Word)
  deriving DecidableEq, Repr

def byteAddr (base a : Word) : BitVec (aw+2) := (a-base).setWidth (aw+2)

def Access.stored (base : Word) (i : BitVec (aw+2)) : Access → Option (BitVec 8)
  | .store op a v =>
    let k := (i-byteAddr base a).toNat
    if k < op.size then some (v.extractLsb' (8*k) 8) else none
  | .idle | .load _ _ => none

/-- The byte most recently stored before cycle `t`, or the initial one. -/
def lastStored (base : Word) (init : BitVec (aw+2) → BitVec 8) (acc : Nat → Access) :
    Nat → BitVec (aw+2) → BitVec 8
  | 0, i => init i
  | t+1, i => ((acc t).stored base i).getD (lastStored base init acc t i)

/-- The instruction in EX makes this access: a naturally aligned load or store, or
anything that stores nothing. -/
def Performs (x : Ex) : Access → Prop
  | .idle => x.storing = false
  | .load op a => x.q.valid = true ∧ Decoded x.q ∧ x.q.ctrl.memRead = true ∧
      x.q.ctrl.memOp = op.funct3 ∧ x.memAddr = a ∧ a.toNat % op.size = 0
  | .store op a v => x.q.valid = true ∧ Decoded x.q ∧ x.q.ctrl.memWrite = true ∧
      x.q.ctrl.memOp = op.funct3 ∧ x.memAddr = a ∧ x.rs2Fwd = v ∧ a.toNat % op.size = 0

/-! ### Bytes of the word array -/

def byteAt (mem : BitVec aw → Word) (i : BitVec (aw+2)) : BitVec 8 :=
  (mem (i.extractLsb' 2 aw)).extractLsb' (8*(i.toNat % 4)) 8

theorem word_ext {v w : Word}
    (h : ∀ k < 4, v.extractLsb' (8*k) 8 = w.extractLsb' (8*k) 8) : v = w := by
  refine BitVec.eq_of_getLsbD_eq fun i hi => ?_
  have hk := congrArg (fun b => b.getLsbD (i % 8)) (h (i/8) (by omega))
  simpa [show i % 8 < 8 by omega,show 8*(i/8)+i % 8 = i by omega] using hk

theorem merge_byte (old new : Word) (be : BitVec 4) {k : Nat} (hk : k < 4) :
    (Ram.merge old new be).extractLsb' (8*k) 8 =
      (if be.getLsbD k then new else old).extractLsb' (8*k) 8 := by
  have hl := @Bits.extract_low
  have hh := @Bits.extract_high
  rcases (by omega : k = 0 ∨ k = 1 ∨ k = 2 ∨ k = 3) with rfl | rfl | rfl | rfl
  · exact hl _ _
  · exact (hh _ _ 0 8).trans (hl _ _)
  · exact (hh _ _ 8 8).trans ((hh _ _ 0 8).trans (hl _ _))
  · exact (hh _ _ 16 8).trans ((hh _ _ 8 8).trans ((hh _ _ 0 8).trans
      BitVec.extractLsb'_eq_self))

theorem byteAt_store (mem : BitVec aw → Word) (j : BitVec aw) (wdata : Word) (be : BitVec 4)
    (i : BitVec (aw+2)) : byteAt (Ram.store mem j wdata be) i =
      if i.extractLsb' 2 aw = j ∧ be.getLsbD (i.toNat % 4) = true then
        wdata.extractLsb' (8*(i.toNat % 4)) 8 else byteAt mem i := by
  have hlt : i.toNat % 4 < 4 := Nat.mod_lt _ (by omega)
  rw [byteAt,byteAt,Ram.store]
  by_cases hj : i.extractLsb' 2 aw = j
  · subst hj
    rw [Function.update_self,merge_byte _ _ _ hlt]
    cases be.getLsbD (i.toNat % 4) <;> simp
  · rw [Function.update_of_ne hj,if_neg fun h => hj h.1]

/-! ### Addresses -/

section addresses

variable {base : Word}

theorem byteAddr_word (a : Word) :
    (byteAddr base a : BitVec (aw+2)).extractLsb' 2 aw = Ram.wordAddr base a := by
  refine BitVec.eq_of_getLsbD_eq fun i hi => ?_
  simp [byteAddr,Ram.wordAddr,hi,show 2+i < aw+2 by omega]

theorem offset_lane (hb : base.toNat % 4 = 0) (a : Word) :
    (a-base).toNat % 4 = a.toNat % 4 := by
  rw [BitVec.toNat_sub]
  omega

theorem byteAddr_lane (hb : base.toNat % 4 = 0) (a : Word) :
    (byteAddr base a : BitVec (aw+2)).toNat % 4 = a.toNat % 4 := by
  rw [byteAddr,BitVec.toNat_setWidth,Nat.pow_add,Nat.mul_comm,Nat.mod_mul_right_mod,
    offset_lane hb]

theorem wordAddr_congr (hb : base.toNat % 4 = 0) {a b : Word} (h : a.toNat/4 = b.toNat/4) :
    (Ram.wordAddr base a : BitVec aw) = Ram.wordAddr base b := by
  have hd : (a-base).toNat/4 = (b-base).toNat/4 := by
    rw [BitVec.toNat_sub,BitVec.toNat_sub]
    omega
  refine BitVec.eq_of_toNat_eq ?_
  rw [Ram.wordAddr,Ram.wordAddr,Bits.extract_toNat,Bits.extract_toNat]
  exact congrArg (· % 2^aw) hd

theorem byteAt_byteAddr (hb : base.toNat % 4 = 0) (mem : BitVec aw → Word) (a : Word) :
    byteAt mem (byteAddr base a) =
      (mem (Ram.wordAddr base a)).extractLsb' (8*(a.toNat % 4)) 8 := by
  rw [byteAt,byteAddr_word,byteAddr_lane hb]

theorem toNat_split (i : BitVec (aw+2)) : i.toNat = 4*(i.extractLsb' 2 aw).toNat+i.toNat % 4 := by
  have hlt := i.isLt
  rw [Nat.pow_add] at hlt
  rw [Bits.extract_toNat,Nat.mod_eq_of_lt (by omega)]
  omega

theorem covers_iff (hb : base.toNat % 4 = 0) {a : Word} {size : Nat}
    (hs : a.toNat % 4+size ≤ 4) (i : BitVec (aw+2)) :
    (i-byteAddr base a).toNat < size ↔ i.extractLsb' 2 aw = Ram.wordAddr base a ∧
      a.toNat % 4 ≤ i.toNat % 4 ∧ i.toNat % 4 < a.toNat % 4+size := by
  have hi := toNat_split i
  have ha := toNat_split (byteAddr base a : BitVec (aw+2))
  rw [byteAddr_word,byteAddr_lane hb] at ha
  rw [BitVec.toNat_sub,← BitVec.toNat_inj,Nat.pow_add]
  have hj := (i.extractLsb' 2 aw).isLt
  have hw := (Ram.wordAddr base a : BitVec aw).isLt
  generalize 2^aw = q at hj hw ⊢
  rcases Nat.lt_or_ge i.toNat (byteAddr base a : BitVec (aw+2)).toNat with hlt | hge
  · rw [Nat.mod_eq_of_lt (by omega)]
    omega
  · rw [show q*2^2-(byteAddr base a : BitVec (aw+2)).toNat+i.toNat =
      i.toNat-(byteAddr base a : BitVec (aw+2)).toNat+q*2^2 by omega,Nat.add_mod_right,
      Nat.mod_eq_of_lt (by omega)]
    omega

theorem covers_sub (hb : base.toNat % 4 = 0) {a : Word} {i : BitVec (aw+2)}
    (hw : i.extractLsb' 2 aw = Ram.wordAddr base a) (hl : a.toNat % 4 ≤ i.toNat % 4) :
    (i-byteAddr base a).toNat = i.toNat % 4-a.toNat % 4 := by
  have hi := toNat_split i
  have ha := toNat_split (byteAddr base a : BitVec (aw+2))
  rw [byteAddr_word,byteAddr_lane hb,← hw] at ha
  rw [BitVec.toNat_sub_of_le (by rw [BitVec.le_def]; omega)]
  omega

end addresses

/-! ### What the store lanes do -/

theorem load_misaligned {x : Ex} {op : LoadOp} (h : x.q.ctrl.memOp = op.funct3) :
    x.addrMisaligned = decide (x.memAddr.toNat % op.size ≠ 0) := by
  refine misaligned_iff ?_
  rw [h]
  cases op <;> decide

theorem store_misaligned {x : Ex} {op : StoreOp} (h : x.q.ctrl.memOp = op.funct3) :
    x.addrMisaligned = decide (x.memAddr.toNat % op.size ≠ 0) := by
  refine misaligned_iff ?_
  rw [h]
  cases op <;> decide

theorem Performs.store_storing {x : Ex} {op : StoreOp} {a v : Word}
    (h : Performs x (.store op a v)) : x.storing = true := by
  obtain ⟨hv,hd,hm,hop,rfl,rfl,hz⟩ := h
  have hc : x.q.ctrl = ctrlStore (funct3 x.q.insn) := (hd.ctrl ▸ decode_shape _).memWrite_eq hm
  have hmis : x.addrMisaligned = false := by
    rw [store_misaligned hop]
    simp [hz]
  have hx : x.ctrlXfer = false := by simp [Ex.ctrlXfer,hc,ctrlStore]
  have ht : x.trapInfo = none := by
    simp [Ex.trapInfo,hc,ctrlStore,Ex.targetMisaligned,hx,hmis]
  simp [Ex.storing,hv,hm,Ex.trap,ht]

theorem Performs.store_be {x : Ex} {op : StoreOp} {a v : Word}
    (h : Performs x (.store op a v)) {k : Nat} (hk : k < 4) :
    x.dmemBe.getLsbD k = true ↔ a.toNat % 4 ≤ k ∧ k < a.toNat % 4+op.size := by
  have hst := h.store_storing
  obtain ⟨_,_,_,hop,rfl,_,hz⟩ := h
  have hlane : (x.memAddr.extractLsb' 0 2).toNat = x.memAddr.toNat % 4 := low_toNat _ 2
  have hbit : x.memAddr.getLsbD 1 = (x.memAddr.extractLsb' 0 2).getLsbD 1 := by simp
  have hz' : (x.memAddr.extractLsb' 0 2).toNat % op.size = 0 := by
    rw [hlane]
    cases op
    · exact Nat.mod_one _
    · change x.memAddr.toNat % 4 % 2 = 0
      change x.memAddr.toNat % 2 = 0 at hz
      omega
    · change x.memAddr.toNat % 4 % 4 = 0
      change x.memAddr.toNat % 4 = 0 at hz
      omega
  rw [Ex.dmemBe,if_pos hst,hop,hbit,← hlane]
  generalize x.memAddr.extractLsb' 0 2 = y at hz'
  cases op
  · have hall : ∀ y : BitVec 2, ∀ k < 4, ((0b0001 : BitVec 4) <<< y).getLsbD k = true ↔
        y.toNat ≤ k ∧ k < y.toNat+1 := by decide
    exact hall y k hk
  · have hall : ∀ y : BitVec 2, y.toNat % 2 = 0 → ∀ k < 4,
        ((if y.getLsbD 1 then 0b1100 else 0b0011 : BitVec 4).getLsbD k = true ↔
          y.toNat ≤ k ∧ k < y.toNat+2) := by decide
    exact hall y hz' k hk
  · have hall : ∀ y : BitVec 2, y.toNat % 4 = 0 → ∀ k < 4,
        ((0b1111 : BitVec 4).getLsbD k = true ↔ y.toNat ≤ k ∧ k < y.toNat+4) := by decide
    exact hall y hz' k hk

/-- Replication puts every byte of the data on its lane. -/
theorem Performs.store_data {x : Ex} {op : StoreOp} {a v : Word}
    (h : Performs x (.store op a v)) {k : Nat} (hk : k < 4) (hlo : a.toNat % 4 ≤ k)
    (hhi : k < a.toNat % 4+op.size) :
    x.dmemWdata.extractLsb' (8*k) 8 = v.extractLsb' (8*(k-a.toNat % 4)) 8 := by
  have hst := h.store_storing
  obtain ⟨_,_,_,hop,rfl,rfl,hz⟩ := h
  rw [Ex.dmemWdata,if_pos hst,hop]
  have hl := @Bits.extract_low
  have hh := @Bits.extract_high
  cases op with
  | sb =>
    have hkr : k = x.memAddr.toNat % 4 := by
      change k < x.memAddr.toNat % 4+1 at hhi
      omega
    rw [← hkr,Nat.sub_self]
    rcases (by omega : k = 0 ∨ k = 1 ∨ k = 2 ∨ k = 3) with h | h | h | h
    · rw [h]; exact hl _ _
    · rw [h]; exact (hh _ _ 0 8).trans (hl _ _)
    · rw [h]; exact (hh _ _ 8 8).trans ((hh _ _ 0 8).trans (hl _ _))
    · rw [h]
      exact (hh _ _ 16 8).trans ((hh _ _ 8 8).trans ((hh _ _ 0 8).trans
        BitVec.extractLsb'_eq_self))
  | sh =>
    change x.memAddr.toNat % 2 = 0 at hz
    change k < x.memAddr.toNat % 4+2 at hhi
    have hx := Bits.extract_extract x.rs2Fwd 0 16 (8*(k-x.memAddr.toNat % 4)) 8 (by omega)
    rw [Nat.zero_add] at hx
    rw [← hx]
    rcases (by omega : x.memAddr.toNat % 4 = 0 ∨ x.memAddr.toNat % 4 = 2) with h | h
    · rw [h,Nat.sub_zero]
      exact (BitVec.extractLsb'_append_eq_of_add_le (by omega))
    · obtain ⟨j,rfl⟩ : ∃ j, k = j+2 := ⟨k-2,by omega⟩
      rw [h,Nat.add_sub_cancel,show 8*(j+2) = 16+8*j by omega]
      exact hh _ _ _ _
  | sw =>
    change x.memAddr.toNat % 4 = 0 at hz
    rw [hz,Nat.sub_zero]
    rfl

theorem Performs.load_ctrl {x : Ex} {op : LoadOp} {a : Word} (h : Performs x (.load op a)) :
    x.q.ctrl = ctrlLoad (funct3 x.q.insn) :=
  (h.2.1.ctrl ▸ decode_shape _).memRead_eq h.2.2.1

theorem Performs.be_zero {x : Ex} {acc : Access} (h : Performs x acc)
    (hs : ∀ op a v, acc ≠ .store op a v) : x.dmemBe = 0 := by
  have hst : x.storing = false := by
    cases acc with
    | idle => exact h
    | load op a => simp [Ex.storing,h.load_ctrl,ctrlLoad]
    | store op a v => exact absurd rfl (hs op a v)
  rw [Ex.dmemBe,hst,if_neg Bool.false_ne_true]

/-! ### What the aligner reads -/

theorem portWord_base (mem : Word → BitVec 8) (a : Word) :
    portWord mem a = portWord mem (a.extractLsb' 2 30 ++ (0 : BitVec 2)) := by
  have h : (a.extractLsb' 2 30 ++ (0 : BitVec 2)).extractLsb' 2 30 = a.extractLsb' 2 30 :=
    (Bits.extract_high _ _ 0 30).trans BitVec.extractLsb'_eq_self
  rw [portWord,portWord,h]

theorem word_eq_portWord {base : Word} (hb : base.toNat % 4 = 0) (mem : BitVec aw → Word)
    (a : Word) : mem (Ram.wordAddr base a) =
      portWord (fun b => byteAt mem (byteAddr base b)) a := by
  have ha := base_toNat a
  rw [portWord_base]
  generalize a.extractLsb' 2 30 ++ (0 : BitVec 2) = a' at ha
  refine word_ext fun k hk => ?_
  have hadd : (a'+BitVec.ofNat 32 k).toNat = 4*(a.toNat/4)+k := by
    rw [BitVec.toNat_add,BitVec.toNat_ofNat,ha]
    omega
  rw [portWord_byte _ a' (k := k) (n := k) (by omega) hk,byteAt_byteAddr hb,hadd,
    wordAddr_congr hb (a := a'+BitVec.ofNat 32 k) (b := a) (by omega),
    show (4*(a.toNat/4)+k) % 4 = k by omega]

theorem Performs.load_result {x : Ex} {op : LoadOp} {a : Word} (h : Performs x (.load op a))
    (mem : Word → BitVec 8) (md : Word) :
    (x.latch md).result (portWord mem a) = op.value mem a := by
  have hc := h.load_ctrl
  obtain ⟨_,_,_,hop,rfl,hz⟩ := h
  have hr : (x.latch md).exResult = x.memAddr := by
    change x.result md = x.memAddr
    rw [Ex.result,Ex.aluY,Ex.aluA,Ex.aluB,hc]
    rfl
  have hs : (x.latch md).resultSel = .mem := congrArg Ctrl.resultSel hc
  rw [ExMem.result,hs]
  exact loadData_value hop hr hz

/-! ### Runs -/

namespace DataPort

structure In where
  ex : Ex
  fetch : Word

/-- The array with EX on port B and any fetch on port A. -/
def machine (base : Word) (ram : Ram aw) : Clocked.Machine (Ram aw) In :=
  ⟨ram,fun r i => r.next base i.fetch i.ex.memAddr i.ex.dmemWdata i.ex.dmemBe⟩

variable {base : Word}

theorem byteAt_next (hb : base.toNat % 4 = 0) (r : Ram aw) {i : In} {acc : Access}
    (hp : Performs i.ex acc) (j : BitVec (aw+2)) :
    byteAt (r.next base i.fetch i.ex.memAddr i.ex.dmemWdata i.ex.dmemBe).mem j =
      (acc.stored base j).getD (byteAt r.mem j) := by
  rw [Ram.next,byteAt_store]
  cases acc with
  | idle =>
    have h0 := hp.be_zero fun _ _ _ h => by cases h
    simp [h0,Access.stored]
  | load op a =>
    have h0 := hp.be_zero fun _ _ _ h => by cases h
    simp [h0,Access.stored]
  | store op a v =>
    have hlane : j.toNat % 4 < 4 := Nat.mod_lt _ (by omega)
    have ha : i.ex.memAddr = a := hp.2.2.2.2.1
    have hsize : a.toNat % 4+op.size ≤ 4 := by
      have hz := hp.2.2.2.2.2.2
      cases op
      · change a.toNat % 4+1 ≤ 4
        omega
      · change a.toNat % 4+2 ≤ 4
        change a.toNat % 2 = 0 at hz
        omega
      · change a.toNat % 4+4 ≤ 4
        change a.toNat % 4 = 0 at hz
        omega
    have hcov := covers_iff hb hsize j
    have hbe := hp.store_be hlane
    rw [Access.stored,ha]
    by_cases hk : (j-byteAddr base a).toNat < op.size
    · obtain ⟨hw,hlo,hhi⟩ := hcov.mp hk
      rw [if_pos ⟨hw,hbe.mpr ⟨hlo,hhi⟩⟩,hp.store_data hlane hlo hhi]
      simp only [hk,if_true,Option.getD_some]
      rw [covers_sub hb hw hlo]
    · rw [if_neg fun h => hk (hcov.mpr ⟨h.1,hbe.mp h.2⟩)]
      simp only [hk,if_false,Option.getD_none]

variable (base) (ram : Ram aw) (x : Nat → In) (acc : Nat → Access)

def run (t : Nat) : Ram aw := (machine base ram).run x t

theorem run_bytes (hb : base.toNat % 4 = 0) (hp : ∀ u, Performs (x u).ex (acc u)) (t : Nat)
    (i : BitVec (aw+2)) :
    byteAt (run base ram x t).mem i = lastStored base (byteAt ram.mem) acc t i := by
  induction t with
  | zero => rfl
  | succ t ih =>
    rw [lastStored,← ih]
    exact byteAt_next hb _ (hp t) i

theorem run_load (hb : base.toNat % 4 = 0) (hp : ∀ u, Performs (x u).ex (acc u)) {t : Nat}
    {op : LoadOp} {a : Word} (h : acc t = .load op a) (md : Word) :
    ((x t).ex.latch md).result (run base ram x (t+1)).rdataB =
      op.value (fun b => lastStored base (byteAt ram.mem) acc t (byteAddr base b)) a := by
  have hl := hp t
  rw [h] at hl
  have hw : (run base ram x (t+1)).rdataB = (run base ram x t).mem (Ram.wordAddr base a) := by
    rw [← hl.2.2.2.2.1]
    rfl
  simp only [← run_bytes base ram x acc hb hp t]
  rw [hw,word_eq_portWord hb (run base ram x t).mem a,hl.load_result]

/-- Every byte of the array is the one most recently stored to it, a store changes no
other byte, and a load returns the bytes it covers. -/
theorem byte_memory (hb : base.toNat % 4 = 0) (hp : ∀ u, Performs (x u).ex (acc u)) (t : Nat) :
    (∀ i, byteAt (run base ram x t).mem i = lastStored base (byteAt ram.mem) acc t i) ∧
    (∀ i, (acc t).stored base i = none →
      byteAt (run base ram x (t+1)).mem i = byteAt (run base ram x t).mem i) ∧
    ∀ op a md, acc t = .load op a →
      ((x t).ex.latch md).result (run base ram x (t+1)).rdataB =
        op.value (fun b => lastStored base (byteAt ram.mem) acc t (byteAddr base b)) a := by
  refine ⟨run_bytes base ram x acc hb hp t,fun i hi => ?_,
    fun op a md h => run_load base ram x acc hb hp h md⟩
  exact (byteAt_next hb _ (hp t) i).trans (by rw [hi]; rfl)

/-- `sb` of -2 to byte 1, `lb` from it in the next cycle, then `lhu` of its halfword. -/
def storeThenLoad (t : Nat) : In where
  ex :=
    match t with
    | 0 => stage 0x002080A3 0 0x80000000 0xFFFFFFFE (Core.reset 0).csr 0
    | 1 => stage 0x00108183 4 0x80000000 0 (Core.reset 0).csr 0
    | _ => stage 0x0000D183 8 0x80000000 0 (Core.reset 0).csr 0
  fetch := 0

def storeThenLoadAccess : Nat → Access
  | 0 => .store .sb 0x80000001 0xFFFFFFFE
  | 1 => .load .lb 0x80000001
  | _ => .load .lhu 0x80000000

theorem storeThenLoad_performs (t : Nat) :
    Performs (storeThenLoad t).ex (storeThenLoadAccess t) := by
  have hd (w pc rs1 rs2 : Word) : Decoded (stage w pc rs1 rs2 (Core.reset 0).csr 0).q :=
    ⟨rfl,rfl,rfl,rfl,rfl⟩
  match t with
  | 0 => exact ⟨rfl,hd _ _ _ _,by decide +kernel,by decide +kernel,by decide +kernel,rfl,rfl⟩
  | 1 => exact ⟨rfl,hd _ _ _ _,by decide +kernel,by decide +kernel,by decide +kernel,rfl⟩
  | t+2 =>
    change Performs (storeThenLoad 2).ex (storeThenLoadAccess 2)
    exact ⟨rfl,hd _ _ _ _,by decide +kernel,by decide +kernel,by decide +kernel,rfl⟩

theorem byte_memory_store_load :
    let base : Word := 0x80000000
    let ram : Ram 14 := ⟨fun _ => 0,0,0⟩
    ((storeThenLoad 2).ex.latch 0).result (run base ram storeThenLoad 3).rdataB =
      LoadOp.lhu.value (fun b => lastStored base (byteAt ram.mem) storeThenLoadAccess 2
        (byteAddr base b)) 0x80000000 :=
  (byte_memory 0x80000000 ⟨fun _ => 0,0,0⟩ storeThenLoad storeThenLoadAccess (by decide)
    storeThenLoad_performs 2).2.2 .lhu 0x80000000 0 rfl

end DataPort

/-! ### The core's own accesses -/

def accessOf (x : Ex) : Access :=
  if x.q.valid && !x.trap then
    if x.q.ctrl.memRead then
      match [LoadOp.lb,.lh,.lw,.lbu,.lhu].find? fun op => op.funct3 == x.q.ctrl.memOp with
      | some op => .load op x.memAddr
      | none => .idle
    else if x.q.ctrl.memWrite then
      match [StoreOp.sb,.sh,.sw].find? fun op => op.funct3 == x.q.ctrl.memOp with
      | some op => .store op x.memAddr x.rs2Fwd
      | none => .idle
    else .idle
  else .idle

theorem performs_accessOf {x : Ex} (hd : x.q.valid = true → Decoded x.q) :
    Performs x (accessOf x) := by
  rw [accessOf]
  cases hv : x.q.valid with
  | false => simp [Performs,Ex.storing,hv]
  | true =>
    have hd := hd hv
    cases ht : x.trap with
    | true => simp [Performs,Ex.storing,ht]
    | false =>
      have hn : x.trapInfo = none := by simpa [Ex.trap] using ht
      simp only [Bool.not_false,Bool.and_true,if_true]
      split
      · rename_i hm
        have hc : x.q.ctrl = ctrlLoad (funct3 x.q.insn) :=
          (hd.ctrl ▸ decode_shape _).memRead_eq hm
        have hx : x.ctrlXfer = false := by simp [Ex.ctrlXfer,hc,ctrlLoad]
        split
        · rename_i op hf
          have hf := List.find?_some hf
          have hop : x.q.ctrl.memOp = op.funct3 := (beq_iff_eq.mp hf).symm
          have hmis : x.addrMisaligned = false := by
            simpa [Ex.trapInfo,hv,hc,ctrlLoad,Ex.targetMisaligned,hx] using hn
          rw [load_misaligned hop] at hmis
          exact ⟨hv,hd,hm,hop,rfl,by simpa using hmis⟩
        · simp [Performs,Ex.storing,hc,ctrlLoad]
      · split
        · rename_i hm
          have hc : x.q.ctrl = ctrlStore (funct3 x.q.insn) :=
            (hd.ctrl ▸ decode_shape _).memWrite_eq hm
          have hx : x.ctrlXfer = false := by simp [Ex.ctrlXfer,hc,ctrlStore]
          split
          · rename_i op hf
            have hf := List.find?_some hf
            have hop : x.q.ctrl.memOp = op.funct3 := (beq_iff_eq.mp hf).symm
            have hmis : x.addrMisaligned = false := by
              simpa [Ex.trapInfo,hv,hc,ctrlStore,Ex.targetMisaligned,hx] using hn
            rw [store_misaligned hop] at hmis
            exact ⟨hv,hd,hm,hop,rfl,rfl,by simpa using hmis⟩
          · rename_i hf
            have hw := memWrite_width (hd.ctrl ▸ hm)
            have hop : x.q.ctrl.memOp = funct3 x.q.insn := congrArg Ctrl.memOp hc
            rw [hop] at hf
            rcases hw with h | h | h <;> rw [h] at hf <;> cases hf
        · rename_i hm
          simp [Performs,Ex.storing,hm]

theorem accessOf_untrapped {x : Ex} (h : accessOf x ≠ .idle) : x.trap = false := by
  rw [accessOf] at h
  cases ht : x.trap with
  | false => rfl
  | true => exact absurd (by simp [ht]) h

namespace SimTop

variable (base resetPc : Word) (ram : Ram aw) (x : Nat → In)

def access (t : Nat) : Access := accessOf (Core.ex (run base resetPc ram x t).core)

theorem run_ram (t : Nat) : (run base resetPc ram x t).ram = DataPort.run base ram
    (fun u => ⟨Core.ex (run base resetPc ram x u).core,
      Core.imemAddr (run base resetPc ram x u).core⟩) t :=
  (machine base resetPc ram).run_part (DataPort.machine base ram) State.ram
    (fun s _ => ⟨Core.ex s.core,Core.imemAddr s.core⟩) rfl (fun _ _ => rfl) x t

theorem run_performs (t : Nat) : Performs (Core.ex (run base resetPc ram x t).core)
    (access base resetPc ram x t) := by
  refine performs_accessOf fun hv => ?_
  rw [run_core] at hv ⊢
  exact Core.run_decoded resetPc _ t hv

/-- In any run of the core on its memory a load's result is what the bytes it covers were
last stored to hold. -/
theorem load_result (hb : base.toNat % 4 = 0) (t : Nat) {op : LoadOp} {a : Word}
    (h : access base resetPc ram x t = .load op a) :
    let s := run base resetPc ram x (t+1)
    s.core.exMemQ.result s.ram.rdataB = op.value (fun b => lastStored base (byteAt ram.mem)
      (access base resetPc ram x) t (byteAddr base b)) a := by
  have hp := run_performs base resetPc ram x
  have hl := hp t
  rw [h] at hl
  have htrap : Core.exTrap (run base resetPc ram x t).core = false := by
    refine accessOf_untrapped fun hi => ?_
    rw [access,hi] at h
    cases h
  have hstall : Core.exStall (run base resetPc ram x t).core = false := by
    have hc : (run base resetPc ram x t).core.idExQ.ctrl = _ := hl.load_ctrl
    simp [Core.exStall,Core.exMdReq,hc,ctrlLoad]
  have hm : (run base resetPc ram x (t+1)).core.exMemQ =
      (Core.ex (run base resetPc ram x t).core).latch
        (Muldiv.result (run base resetPc ram x t).core.muldiv) := by
    change Core.exMemNext (run base resetPc ram x t).core = _
    simp only [Core.exMemNext,htrap,hstall,Bool.or_false,Bool.false_eq_true,if_false]
  have hload := DataPort.run_load base ram (fun u => ⟨Core.ex (run base resetPc ram x u).core,
    Core.imemAddr (run base resetPc ram x u).core⟩) _ hb hp h
    (Muldiv.result (run base resetPc ram x t).core.muldiv)
  rw [← run_ram] at hload
  exact (congrArg (fun q => q.result (run base resetPc ram x (t+1)).ram.rdataB) hm).trans hload

end SimTop

end Rvntt
