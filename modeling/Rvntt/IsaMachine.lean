import Rvntt.ByteMemory
import Rvntt.CsrAccess
import Rvntt.Disassembly
set_option autoImplicit false

/-!
A machine of the specification: the instructions on registers, a byte memory and the
CSRs, with the traps of machine mode. What the counters and the entropy source read is
an input of each step.
-/

namespace Rvntt.Isa

/-! ### The CSRs -/

/-- What the registers other than the counters read. -/
abbrev Csrs := Csr.Reg → Word

/-- What any other address reads, in one step. -/
abbrev Volatile := Csr.Addr → Word

/-- Read-only zeros, and the counters and event selectors that do not exist. -/
def ReadsZero (addr : Csr.Addr) : Prop :=
  addr ∈ [Csr.csrMip,Csr.csrMvendorid,Csr.csrMarchid,Csr.csrMimpid,Csr.csrMhartid] ∨
    ∃ base ∈ Csr.numbered, ∃ n, 9 ≤ n ∧ n ≤ 31 ∧ addr.toNat = base+n

/-- Only the counters and the entropy source are free. -/
structure Volatile.Ok (vol : Volatile) : Prop where
  misa : vol Csr.csrMisa = Csr.misaValue
  zero : ∀ addr, ReadsZero addr → vol addr = 0

namespace Csrs

def regs : List Csr.Reg :=
  [.mstatus,.mie,.mtvec,.mscratch,.mepc,.mcause,.mtval,.mcountinhibit] ++
    (List.finRange 6).map .mhpmevent

def read (c : Csrs) (vol : Volatile) (addr : Csr.Addr) : Word :=
  match regs.find? fun r => r.addr == addr with
  | some r => c r
  | none => vol addr

def put (c : Csrs) (addr : Csr.Addr) (v : Word) : Csrs := fun r =>
  if r.addr = addr then Csr.legalise 0 (c r) addr v else c r

def mstatus (mie mpie : Bool) : Word :=
  0x1800 ||| (if mpie then 0x80 else 0) ||| if mie then 0x8 else 0

def enter (c : Csrs) (pc : Word) (cause : BitVec 5) (val : Word) : Csrs
  | .mepc => pc &&& 0xFFFFFFFC
  | .mcause => cause.setWidth 32
  | .mtval => val
  | .mstatus => mstatus false ((c .mstatus).getLsbD 3)
  | r => c r

def leave (c : Csrs) : Csrs
  | .mstatus => mstatus ((c .mstatus).getLsbD 7) true
  | r => c r

def reset : Csrs
  | .mstatus => mstatus false false
  | _ => 0

end Csrs

def CsrOp.op : CsrOp → Csr.Op
  | csrrw | csrrwi => .rw
  | csrrs | csrrsi => .rs
  | csrrc | csrrci => .rc

def CsrOp.immediate : CsrOp → Bool
  | csrrw | csrrs | csrrc => false
  | csrrwi | csrrsi | csrrci => true

def Instr.csrAccess (rs1 : Word) : Instr → Option Csr.Access
  | csr op addr _ src =>
    some ⟨addr,op.op,if op.immediate then src.setWidth 32 else rs1,src != 0⟩
  | _ => none

instance (addr : Csr.Addr) : Decidable (Csr.Implemented addr) :=
  decidable_of_iff _ (Csr.known_iff addr)

/-- Unknown, read-only and written, or the seed and not written. -/
def CsrIllegal (a : Csr.Access) : Prop :=
  ¬Csr.Implemented a.addr ∨ (a.writes = true ∧ Csr.ReadOnly a.addr) ∨
    (a.addr = Csr.csrSeed ∧ a.writes = false)

instance (a : Csr.Access) : Decidable (CsrIllegal a) :=
  inferInstanceAs (Decidable (_ ∨ _))

/-! ### One instruction -/

inductive Event where
  | retired (c : Core.Commit)
  | trapped (pc : Word) (cause : BitVec 5) (val : Word)
  deriving DecidableEq, Repr

def Event.commit : Event → Option Core.Commit
  | retired c => some c
  | trapped _ _ _ => none

def Event.trap : Event → Option Word
  | retired _ => none
  | trapped pc _ _ => some pc

def stores (e : Env) : Instr → Access
  | .store op _ _ imm => .store op (e.rs1+simm imm) e.rs2
  | _ => .idle

structure Hart where
  pc : Word
  regs : BitVec 5 → Word
  csr : Csrs

namespace Hart

/-- The word fetched, and the memory that a load sees. -/
structure View where
  insn : Word
  mem : Word → BitVec 8

def env (h : Hart) (w : View) : Env where
  pc := h.pc
  rs1 := h.regs (rs1Field w.insn)
  rs2 := h.regs (rs2Field w.insn)
  mem := w.mem
  mtvec := h.csr .mtvec
  mepc := h.csr .mepc

def illegal (h : Hart) (insn : Word) : Outcome := {trap := some (2,insn), next := h.csr .mtvec}

def outcome (h : Hart) (vol : Volatile) (w : View) : Outcome :=
  match Instr.decode w.insn with
  | none => h.illegal w.insn
  | some i =>
    match i.csrAccess (h.env w).rs1 with
    | some a =>
      if CsrIllegal a then h.illegal w.insn
      else compute (h.env w) (rdField w.insn) (h.csr.read vol a.addr)
    | none => (i.exec (h.env w)).getD (h.illegal w.insn)

def regsNext (h : Hart) : Option (BitVec 5 × Word) → BitVec 5 → Word
  | some (rd,v) => fun q => if q = rd ∧ rd ≠ 0 then v else h.regs q
  | none => h.regs

def csrNext (h : Hart) (vol : Volatile) (w : View) (i : Instr) : Csrs :=
  match i.csrAccess (h.env w).rs1 with
  | some a =>
    if a.writes then h.csr.put a.addr (a.op.apply (h.csr.read vol a.addr) a.src) else h.csr
  | none => if i = .mret then h.csr.leave else h.csr

def step (h : Hart) (vol : Volatile) (w : View) : Hart :=
  let r := h.outcome vol w
  match r.trap with
  | some (cause,val) => {h with pc := r.next, csr := h.csr.enter h.pc cause val}
  | none =>
    { pc := r.next
      regs := h.regsNext r.dest
      csr := ((Instr.decode w.insn).map (h.csrNext vol w)).getD h.csr }

def event (h : Hart) (vol : Volatile) (w : View) : Event :=
  match (h.outcome vol w).trap with
  | some (cause,val) => .trapped h.pc cause val
  | none => .retired ⟨h.pc,w.insn,(h.outcome vol w).dest.filter fun d => d.1 != 0⟩

def store (h : Hart) (vol : Volatile) (w : View) : Access :=
  if (h.outcome vol w).trap.isSome then .idle
  else ((Instr.decode w.insn).map (stores (h.env w))).getD .idle

def reset (resetPc : Word) : Hart := ⟨resetPc,fun _ => 0,.reset⟩

end Hart

/-! ### The machine -/

/-- Memory is `2^(aw+2)` bytes, and an address is taken modulo that from `base` on. -/
structure Machine (aw : Nat) extends Hart where
  mem : BitVec (aw+2) → BitVec 8

namespace Machine

variable {aw : Nat} (base : Word)

def bytes (m : Machine aw) (a : Word) : BitVec 8 := m.mem (byteAddr base a)

def fetch (m : Machine aw) : Word := LoadOp.lw.value (m.bytes base) m.pc

def view (m : Machine aw) : Hart.View := ⟨m.fetch base,m.bytes base⟩

def memNext (m : Machine aw) (a : Access) : BitVec (aw+2) → BitVec 8 := fun j =>
  (a.stored base j).getD (m.mem j)

def step (vol : Volatile) (m : Machine aw) : Machine aw where
  toHart := m.toHart.step vol (m.view base)
  mem := m.memNext base (m.toHart.store vol (m.view base))

def event (vol : Volatile) (m : Machine aw) : Event := m.toHart.event vol (m.view base)

def reset (resetPc : Word) (mem : BitVec (aw+2) → BitVec 8) : Machine aw :=
  ⟨.reset resetPc,mem⟩

end Machine

section run

variable {aw : Nat} (base : Word) (m : Machine aw) (vol : Nat → Volatile)

/-- The runs from `m`, given what the counters and the entropy source read at each step. -/
def machine : Clocked.Machine (Machine aw) Volatile := ⟨m,fun m v => m.step base v⟩

abbrev run (n : Nat) : Machine aw := (machine base m).run vol n

def eventAt (n : Nat) : Event := (run base m vol n).event base (vol n)

def commits (n : Nat) : List Core.Commit := Clocked.events (fun k => (eventAt base m vol k).commit) n

def traps (n : Nat) : List Word := Clocked.events (fun k => (eventAt base m vol k).trap) n

end run

end Rvntt.Isa
