import Rvntt.TrapHandler
import Rvntt.UartDriver
set_option autoImplicit false

/-!
A checker for the code of a program that drives the UART: facts about registers and memory
before each instruction, and one pass that finds them kept.
-/

namespace Rvntt.UartCheck

open Isa

/-! ### Facts -/

/-- What is known of a register: nothing, its value, that it is a multiple of four, that it is
a status that has been read (with `tx` no byte has been sent since), or one bit of such a
status. -/
inductive Val where
  | any
  | word (w : Word)
  | aligned
  | status (tx : Bool)
  | txReady
  | rxValid
  deriving DecidableEq, Repr

/-- `ready` and `valid` are what the program has read of the transmitter and of the receiver,
and `byte` that it has read the byte that waits. -/
structure Facts where
  regs : List (BitVec 5 × Val) := []
  words : List (Nat × Word) := []
  ready : Bool := false
  valid : Bool := false
  byte : Bool := false
  deriving DecidableEq, Repr

namespace Val

def sent : Val → Val
  | status _ => status false
  | txReady => any
  | v => v

def taken : Val → Val
  | status _ | rxValid => any
  | v => v

def imm (op : ImmOp) (k : BitVec 12) : Val → Val
  | word w => word (op.reg.eval w (simm k))
  | aligned => if op = .addi ∧ (simm k).toNat % 4 = 0 then aligned else any
  | status tx =>
    if op = .andi ∧ k = 1 ∧ tx = true then txReady
    else if op = .andi ∧ k = 2 then rxValid
    else any
  | _ => any

/-- The first says no less than the second. -/
def le (a b : Val) : Bool :=
  a = b || match a, b with
    | _,any => true
    | word w,aligned => w.toNat % 4 = 0
    | status _,status tx => !tx
    | _,_ => false

end Val

namespace Facts

def get (f : Facts) (r : BitVec 5) : Val :=
  if r = 0 then .word 0 else ((f.regs.find? fun q => q.1 == r).map Prod.snd).getD .any

def set (f : Facts) (r : BitVec 5) (v : Val) : Facts :=
  if r = 0 then f else {f with regs := (r,v) :: f.regs}

def map (f : Facts) (g : Val → Val) : Facts := {f with regs := f.regs.map fun q => (q.1,g q.2)}

def nonzero (f : Facts) : Val → Facts
  | .txReady => {f with ready := true}
  | .rxValid => {f with valid := true}
  | _ => f

def le (f g : Facts) : Bool :=
  (g.regs.all fun q => (f.get q.1).le q.2) && (g.words.all fun q => f.words.contains q) &&
    (f.ready || !g.ready) && (f.valid || !g.valid) && (f.byte || !g.byte)

end Facts

/-! ### Meaning -/

namespace Val

/-- `ready` and `valid` are the transmitter and the receiver as they have been read. -/
def Holds (ready valid : Bool) (w : Word) : Val → Prop
  | any => True
  | word v => w = v
  | aligned => w.toNat % 4 = 0
  | status tx => (tx = true → w.getLsbD 0 = true → ready = true) ∧
      (w.getLsbD 1 = true → valid = true)
  | txReady => w ≠ 0 → ready = true
  | rxValid => w ≠ 0 → valid = true

variable {ready valid ready' valid' : Bool} {w : Word}

theorem Holds.mono {v : Val} (hr : ready = true → ready' = true)
    (hv : valid = true → valid' = true) (h : v.Holds ready valid w) : v.Holds ready' valid' w := by
  cases v with
  | status tx => exact ⟨fun ht hb => hr (h.1 ht hb),fun hb => hv (h.2 hb)⟩
  | txReady => exact fun hw => hr (h hw)
  | rxValid => exact fun hw => hv (h hw)
  | _ => exact h

theorem Holds.sent {v : Val} (h : v.Holds ready valid w) : v.sent.Holds false valid w := by
  cases v with
  | status tx =>
    refine ⟨fun ht => ?_,h.2⟩
    cases ht
  | txReady => trivial
  | _ => exact h

theorem Holds.taken {v : Val} (h : v.Holds ready valid w) : v.taken.Holds ready false w := by
  cases v with
  | status tx => trivial
  | rxValid => trivial
  | _ => exact h

theorem Holds.le {a b : Val} (hle : a.le b = true) (h : a.Holds ready valid w) :
    b.Holds ready valid w := by
  rcases (Bool.or_eq_true _ _).mp hle with he | hle
  · exact of_decide_eq_true he ▸ h
  · cases b with
    | any => trivial
    | aligned =>
      cases a with
      | word v =>
        obtain rfl : w = v := h
        exact (decide_eq_true_iff (p := w.toNat % 4 = 0)).mp hle
      | _ => cases hle
    | status tx =>
      cases a with
      | status tx' =>
        refine ⟨fun ht => ?_,h.2⟩
        rw [ht] at hle
        cases hle
      | _ => cases hle
    | _ => cases a <;> cases hle

theorem and_bit {k : Nat} (h : w &&& BitVec.twoPow 32 k ≠ 0) : w.getLsbD k = true := by
  by_contra hn
  refine h ?_
  rw [BitVec.and_twoPow,if_neg hn]
  rfl

theorem simm_one : simm 1 = BitVec.twoPow 32 0 := by decide

theorem simm_two : simm 2 = BitVec.twoPow 32 1 := by decide

theorem Holds.imm {v : Val} (op : ImmOp) (k : BitVec 12) (h : v.Holds ready valid w) :
    (v.imm op k).Holds ready valid (op.reg.eval w (simm k)) := by
  cases v with
  | word v =>
    obtain rfl : w = v := h
    rfl
  | aligned =>
    change (if op = .addi ∧ (simm k).toNat % 4 = 0 then aligned else any).Holds _ _ _
    by_cases hc : op = .addi ∧ (simm k).toNat % 4 = 0
    · rw [if_pos hc,hc.1]
      have hw : w.toNat % 4 = 0 := h
      have hk := hc.2
      change (w+simm k).toNat % 4 = 0
      rw [BitVec.toNat_add]
      omega
    · rw [if_neg hc]
      trivial
  | status tx =>
    change (if op = .andi ∧ k = 1 ∧ tx = true then txReady
      else if op = .andi ∧ k = 2 then rxValid else any).Holds _ _ _
    by_cases hc : op = .andi ∧ k = 1 ∧ tx = true
    · rw [if_pos hc,hc.1,hc.2.1,simm_one]
      exact fun hn => h.1 hc.2.2 (and_bit hn)
    · rw [if_neg hc]
      by_cases hc : op = .andi ∧ k = 2
      · rw [if_pos hc,hc.1,hc.2,simm_two]
        exact fun hn => h.2 (and_bit hn)
      · rw [if_neg hc]
        trivial
  | any => trivial
  | txReady => trivial
  | rxValid => trivial

end Val

namespace Facts

theorem get_zero (f : Facts) : f.get 0 = .word 0 := rfl

theorem get_set (f : Facts) (r : BitVec 5) (v : Val) (q : BitVec 5) :
    (f.set r v).get q = if q = r ∧ r ≠ 0 then v else f.get q := by
  rw [set]
  by_cases hr : r = 0
  · rw [if_pos hr,if_neg fun h => h.2 hr]
  · rw [if_neg hr,get,get,List.find?_cons]
    by_cases hq : q = r
    · rw [if_pos (show q = r ∧ r ≠ 0 from ⟨hq,hr⟩),if_neg (hq ▸ hr),beq_iff_eq.mpr hq.symm]
      rfl
    · rw [if_neg (fun h : q = r ∧ r ≠ 0 => hq h.1),beq_eq_false_iff_ne.mpr (Ne.symm hq)]

theorem get_map (f : Facts) {g : Val → Val} (h0 : g (.word 0) = .word 0) (ha : g .any = .any)
    (q : BitVec 5) : (f.map g).get q = g (f.get q) := by
  rw [get,get]
  by_cases hq : q = 0
  · rw [if_pos hq,if_pos hq,h0]
  · rw [if_neg hq,if_neg hq,map,List.find?_map]
    change ((Option.map _ (f.regs.find? fun p => p.1 == q)).map Prod.snd).getD Val.any = _
    cases f.regs.find? fun p => p.1 == q with
    | none => exact ha.symm
    | some p => rfl

end Facts

/-! ### One instruction -/

/-- The two regions of the address map. -/
def Region (base a : Word) : Prop := a.toNat/2^28 = base.toNat/2^28

instance (base a : Word) : Decidable (Region base a) := inferInstanceAs (Decidable (_ = _))

section check

variable (ram mmio : Word) (aw n : Nat)

def index (a : Word) : Nat := (Ram.wordAddr ram a : BitVec aw).toNat

def Facts.word (f : Facts) (k : Nat) : Val :=
  ((f.words.find? fun q => q.1 == k).map fun q => Val.word q.2).getD .any

def load (f : Facts) (op : LoadOp) (rd rs1 : BitVec 5) (k : BitVec 12) : Option Facts :=
  match f.get rs1 with
  | .word w =>
    let a := w+simm k
    if a.toNat % op.size ≠ 0 then none
    else if Region mmio a ∧ a.toNat % 64 = 4 then some (f.set rd (.status true))
    else if Region mmio a ∧ a.toNat % 64 = 8 then
      some ({f with byte := f.byte || f.valid}.set rd .any)
    else if Region ram a ∧ op = .lw then some (f.set rd (f.word (index ram aw a)))
    else some (f.set rd .any)
  | .aligned => if (simm k).toNat % 4 = 0 then some (f.set rd .any) else none
  | _ => if op.size = 1 then some (f.set rd .any) else none

def Facts.put (f : Facts) (k : Nat) : StoreOp → Val → Facts
  | .sw,.word v => {f with words := (k,v) :: f.words.filter fun q => q.1 != k}
  | _,_ => {f with words := f.words.filter fun q => q.1 != k}

/-- A store, where it is allowed: `n` words of code stay, a byte is sent when the transmitter
is known to be ready, and consumed when it has been read. -/
def store (f : Facts) (op : StoreOp) (rs1 rs2 : BitVec 5) (k : BitVec 12) : Option Facts :=
  match f.get rs1 with
  | .word w =>
    let a := w+simm k
    if a.toNat % op.size ≠ 0 then none
    else if Region mmio a then
      if a.toNat % 64/4 = 0 then
        if f.ready then some {f.map .sent with ready := false} else none
      else if a.toNat % 64/4 = 2 then
        if f.byte then some {f.map .taken with valid := false, byte := false} else none
      else some f
    else if Region ram a then
      if n ≤ index ram aw a then some (f.put (index ram aw a) op (f.get rs2)) else none
    else some f
  | _ => none

structure Succ where
  fall : Option Facts := none
  jump : Option (Word × Facts) := none

def next (f : Facts) (pc : Word) : Instr → Option Succ
  | .lui rd k => some {fall := some (f.set rd (.word (uimm k)))}
  | .auipc rd k => some {fall := some (f.set rd (.word (pc+uimm k)))}
  | .opImm op rd rs1 k => some {fall := some (f.set rd ((f.get rs1).imm op k))}
  | .shiftImm _ rd _ _ | .reg _ rd _ _ => some {fall := some (f.set rd .any)}
  | .jal rd k =>
    if fetchMisaligned (pc+offset k) then none
    else some {jump := some (pc+offset k,f.set rd (.word (pc+4)))}
  | .branch c rs1 rs2 k =>
    if fetchMisaligned (pc+offset k) then none
    else match f.get rs1, f.get rs2 with
      | .word v,.word w =>
        if c.holds v w then some {jump := some (pc+offset k,f)} else some {fall := some f}
      | v,_ => some
        { fall := some (if c = .eq ∧ rs2 = 0 then f.nonzero v else f)
          jump := some (pc+offset k,f) }
  | .load op rd rs1 k => (load ram mmio aw f op rd rs1 k).map fun g => {fall := some g}
  | .store op rs1 rs2 k => (store ram mmio aw n f op rs1 rs2 k).map fun g => {fall := some g}
  | .csr op addr rd src =>
    if op = .csrrs ∧ src = 0 ∧ ¬CsrIllegal ⟨addr,.rs,0,false⟩ then
      some {fall := some (f.set rd .any)}
    else none
  | _ => none

/-! ### The code -/

def place (k : Nat) : Word := ram+BitVec.ofNat 32 (4*k)

def mark (marks : List (Nat × Facts)) (k : Nat) : Option Facts :=
  (marks.find? fun m => m.1 == k).map Prod.snd

/-- Where a jump goes is marked, and with no more than what is known. -/
def marked (marks : List (Nat × Facts)) (j : Word × Facts) : Bool :=
  let d := (j.1-ram).toNat
  d % 4 == 0 && decide (d/4 < n) && (mark marks (d/4)).any j.2.le

/-- One pass over the code. Before an instruction is known what is marked there, or what the
one before it leaves. -/
def passes (marks : List (Nat × Facts)) : Nat → Option Facts → List Word → Bool
  | _, cur, [] => cur.isNone
  | k, cur, w :: ws =>
    cur.all (fun f => (mark marks k).all f.le) &&
    match (mark marks k).or cur with
    | none => passes marks (k+1) none ws
    | some f => match (Instr.decode w).bind (next ram mmio aw n f (place ram k)) with
      | none => false
      | some s => s.jump.all (marked ram n marks) && passes marks (k+1) s.fall ws

end check

end Rvntt.UartCheck
