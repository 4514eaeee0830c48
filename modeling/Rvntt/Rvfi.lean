import Rvntt.Operands
set_option autoImplicit false

/-!
`rvntt_rvfi`: the report port and its shadow pipeline beside EX, MEM and WB.
-/

namespace Rvntt.Rvfi

open Core (In exDone exStall exTrap exRedirectTarget archRegs readPort)

/-- The payload with no surviving copy at WB. -/
structure Shadow where
  valid : Bool := false
  trap : Bool := false
  pcRdata : Word := 0
  pcWdata : Word := 0
  insn : Word := 0
  rs1Addr : BitVec 5 := 0
  rs2Addr : BitVec 5 := 0
  rs1Rdata : Word := 0
  rs2Rdata : Word := 0
  memAddr : Word := 0
  memRmask : BitVec 4 := 0
  memWmask : BitVec 4 := 0
  memWdata : Word := 0

structure State where
  exStallQ : Bool := false
  exHoldQ : Shadow := {}
  emQ : Shadow := {}
  mwQ : Shadow := {}
  mwMemRdataQ : Word := 0
  orderQ : BitVec 64 := 0

def exPkt (s : Core.State) : Shadow where
  valid := s.idExQ.valid
  trap := s.idExQ.valid && exTrap s
  pcRdata := s.idExQ.pc
  pcWdata := exRedirectTarget s
  insn := s.idExQ.insn
  rs1Addr := if s.idExQ.ctrl.usesRs1 then s.idExQ.rs1Addr else 0
  rs2Addr := if s.idExQ.ctrl.usesRs2 then s.idExQ.rs2Addr else 0
  rs1Rdata := if s.idExQ.ctrl.usesRs1 then Core.exRs1Fwd s else 0
  rs2Rdata := if s.idExQ.ctrl.usesRs2 then Core.exRs2Fwd s else 0
  memAddr := (Core.ex s).memAddr.extractLsb' 2 30 ++ (0 : BitVec 2)
  memRmask := if s.idExQ.valid && s.idExQ.ctrl.memRead && !exTrap s then 0b1111 else 0
  memWmask := (Core.ex s).dmemBe
  memWdata := (Core.ex s).dmemWdata

/-- The snapshot of the first EX cycle, held through a multi-cycle stall. -/
def exPktEff (r : State) (s : Core.State) : Shadow :=
  if !r.exStallQ then exPkt s else r.exHoldQ

def next (r : State) (s : Core.State) (i : In) : State where
  exStallQ := exStall s
  exHoldQ := if !r.exStallQ then exPkt s else r.exHoldQ
  emQ := if exStall s then {} else exPktEff r s
  mwQ := r.emQ
  mwMemRdataQ := i.dmemRdata
  orderQ := if r.mwQ.valid then r.orderQ+1 else r.orderQ

structure Packet where
  order : BitVec 64
  insn : Word
  trap : Bool
  halt : Bool := false
  intr : Bool := false
  mode : BitVec 2 := 0b11
  ixl : BitVec 2 := 0b01
  rs1Addr : BitVec 5
  rs2Addr : BitVec 5
  rs1Rdata : Word
  rs2Rdata : Word
  rdAddr : BitVec 5
  rdWdata : Word
  pcRdata : Word
  pcWdata : Word
  memAddr : Word
  memRmask : BitVec 4
  memWmask : BitVec 4
  memRdata : Word
  memWdata : Word

/-- `pc` and `insn` come from WB when something retires there. -/
def report (r : State) (s : Core.State) : Packet where
  order := r.orderQ
  insn := if s.memWbQ.valid then s.memWbQ.insn else r.mwQ.insn
  trap := r.mwQ.trap
  rs1Addr := r.mwQ.rs1Addr
  rs2Addr := r.mwQ.rs2Addr
  rs1Rdata := r.mwQ.rs1Rdata
  rs2Rdata := r.mwQ.rs2Rdata
  rdAddr := if Core.wbWe s then s.memWbQ.rdAddr else 0
  rdWdata := if Core.wbWe s then s.memWbQ.wbData else 0
  pcRdata := if s.memWbQ.valid then s.memWbQ.pc else r.mwQ.pcRdata
  pcWdata := r.mwQ.pcWdata
  memAddr := r.mwQ.memAddr
  memRmask := r.mwQ.memRmask
  memWmask := r.mwQ.memWmask
  memRdata := r.mwMemRdataQ
  memWdata := r.mwQ.memWdata

def packet (r : State) (s : Core.State) : Option Packet :=
  if r.mwQ.valid then some (report r s) else none

def machine (resetPc : Word) : Clocked.Machine (Core.State × State) In where
  init := (Core.reset resetPc,{})
  next := fun p i => (Core.next p.1 i,next p.2 p.1 i)

/-! ### The snapshot -/

structure Snapshot (s : Core.State) (d : Word) (p : Shadow) : Prop where
  valid : p.valid = s.idExQ.valid
  trap : p.trap = exTrap s
  pcRdata : p.pcRdata = s.idExQ.pc
  pcWdata : p.pcWdata = exRedirectTarget s
  insn : p.insn = s.idExQ.insn
  rs1 : s.idExQ.valid = true → s.idExQ.ctrl.usesRs1 = true →
    p.rs1Addr = s.idExQ.rs1Addr ∧ p.rs1Rdata = archRegs s d s.idExQ.rs1Addr
  rs2 : s.idExQ.valid = true → s.idExQ.ctrl.usesRs2 = true →
    p.rs2Addr = s.idExQ.rs2Addr ∧ p.rs2Rdata = archRegs s d s.idExQ.rs2Addr
  quiet : p.trap = true → p.memRmask = 0 ∧ p.memWmask = 0

theorem snapshot_first {s : Core.State} (h : Core.Sound s) (ha : s.muldiv.activeQ = false)
    (d : Word) : Snapshot s d (exPkt s) := by
  have htrap : (exPkt s).trap = exTrap s := by
    change (s.idExQ.valid && exTrap s) = exTrap s
    cases ht : exTrap s with
    | false => simp
    | true =>
      have hv : s.idExQ.valid = true := Core.trap_valid ht
      simp [hv]
  refine ⟨rfl,htrap,rfl,rfl,rfl,?_,?_,?_⟩
  · intro hv hu
    exact ⟨if_pos hu,(if_pos hu).trans
      (Core.operand_correct h.operands (h.operands.a hv) ha hu d)⟩
  · intro hv hu
    exact ⟨if_pos hu,(if_pos hu).trans
      (Core.operand_correct h.operands (h.operands.b hv) ha hu d)⟩
  · intro ht
    rw [htrap] at ht
    have hx : (Core.ex s).trap = true := ht
    simp [exPkt,ht,Ex.dmemBe,Ex.storing,hx]

theorem muldiv_falls_through {s : Core.State} (hd : Core.Decoded s.idExQ)
    (hm : s.idExQ.ctrl.isMuldiv = true) :
    exTrap s = false ∧ exRedirectTarget s = s.idExQ.pc+4 := by
  have hc : s.idExQ.ctrl = {ctrlOp with isMuldiv := true, muldivOp := funct3 s.idExQ.insn} :=
    (hd.ctrl ▸ decode_shape _).muldiv_eq hm
  have hq : (Core.ex s).q = s.idExQ := rfl
  have hx : (Core.ex s).ctrlXfer = false := by simp [Ex.ctrlXfer,hq,hc,ctrlOp]
  have ht : (Core.ex s).trap = false := by
    simp [Ex.trap,Ex.trapInfo,hq,hc,ctrlOp,Ex.targetMisaligned,hx]
  have hr : (Core.ex s).mret = false := by simp [Ex.mret,hq,hc,ctrlOp]
  refine ⟨ht,?_⟩
  rw [exRedirectTarget,Ex.redirectTarget,ht,hr,hx]
  rfl

/-- The snapshot stays right while EX holds the instruction: its producers drain
into the register file on the way. -/
theorem Snapshot.held {s : Core.State} {i : In} {p : Shadow} (h : Snapshot s i.dmemRdata p)
    (hd : s.idExQ.valid = true → Core.Decoded s.idExQ) (hs : exStall s = true) (d : Word) :
    Snapshot (Core.next s i) d p := by
  obtain ⟨hv,hm⟩ := Core.exStall_req hs
  have hd' := Core.decoded_next i hd
  obtain ⟨ht,hp⟩ := muldiv_falls_through (hd hv) hm
  cases Core.edge s i with
  | redirect h' => rw [hs] at h'; cases h'
  | loaduse h' => rw [hs] at h'; cases h'
  | advance h' => rw [hs] at h'; cases h'
  | hold _ _ _ _ hex hmem =>
    have hbub : (Core.next s i).exMemQ.valid = false := by rw [hmem]
    have hregs : archRegs (Core.next s i) d = archRegs s i.dmemRdata := by
      rw [Core.archRegs_of_bubble hbub]
      funext r
      exact Core.readPort_next s i r
    rw [hex] at hd'
    have hfall := muldiv_falls_through (s := Core.next s i) (by rw [hex]; exact hd' hv)
      (by rw [hex]; exact hm)
    rw [hex] at hfall
    refine ⟨?_,?_,?_,?_,?_,?_,?_,h.quiet⟩
    · rw [hex]; exact h.valid
    · rw [hfall.1,h.trap,ht]
    · rw [hex]; exact h.pcRdata
    · rw [hfall.2,h.pcWdata,hp]; rfl
    · rw [hex]; exact h.insn
    · rw [hex,hregs]; exact h.rs1
    · rw [hex,hregs]; exact h.rs2

section run

variable (resetPc : Word) (x : Nat → In)

def shadow (t : Nat) : State := ((machine resetPc).run x t).2

theorem machine_core (t : Nat) : ((machine resetPc).run x t).1 = Core.run resetPc x t :=
  (machine resetPc).run_part (Core.machine resetPc) Prod.fst (fun _ i => i) rfl (fun _ _ => rfl) x t

theorem shadow_succ (t : Nat) :
    shadow resetPc x (t+1) = next (shadow resetPc x t) (Core.run resetPc x t) (x t) := by
  rw [← machine_core]
  rfl

def packetAt (t : Nat) : Option Packet := packet (shadow resetPc x t) (Core.run resetPc x t)

def reports (t : Nat) : List Packet := Clocked.events (packetAt resetPc x) t

theorem exStallQ_eq (t : Nat) :
    (shadow resetPc x t).exStallQ = (Core.run resetPc x t).muldiv.activeQ := by
  cases t with
  | zero => rfl
  | succ t => rw [shadow_succ,Core.run_next,Core.activeQ_next]; rfl

theorem snapshot_hold (t : Nat) (ha : (Core.run resetPc x t).muldiv.activeQ = true) (d : Word) :
    Snapshot (Core.run resetPc x t) d (shadow resetPc x t).exHoldQ := by
  induction t generalizing d with
  | zero => cases ha
  | succ t ih =>
    rw [Core.run_next,Core.activeQ_next] at ha
    have hsound := Core.run_sound resetPc x t
    have hnow : Snapshot (Core.run resetPc x t) (x t).dmemRdata (shadow resetPc x (t+1)).exHoldQ := by
      rw [shadow_succ]
      change Snapshot _ _ (if !(shadow resetPc x t).exStallQ then _ else _)
      rw [exStallQ_eq]
      cases hact : (Core.run resetPc x t).muldiv.activeQ with
      | false => exact snapshot_first hsound hact _
      | true => exact ih hact _
    exact hnow.held hsound.decoded ha d

theorem snapshot_eff (t : Nat) (d : Word) :
    Snapshot (Core.run resetPc x t) d (exPktEff (shadow resetPc x t) (Core.run resetPc x t)) := by
  rw [exPktEff,exStallQ_eq]
  cases hact : (Core.run resetPc x t).muldiv.activeQ with
  | false => exact snapshot_first (Core.run_sound resetPc x t) hact d
  | true => exact snapshot_hold resetPc x t hact d

/-! ### Two stages later -/

theorem mwQ_eq (t : Nat) : (shadow resetPc x (t+2)).mwQ =
    if exStall (Core.run resetPc x t) then {}
    else exPktEff (shadow resetPc x t) (Core.run resetPc x t) := by
  rw [shadow_succ]
  change (shadow resetPc x (t+1)).emQ = _
  rw [shadow_succ]
  rfl

theorem packetAt_isSome (t : Nat) :
    (packetAt resetPc x (t+2)).isSome = exDone (Core.run resetPc x t) := by
  have hsnap := (snapshot_eff resetPc x t 0).valid
  rw [packetAt,packet,mwQ_eq,exDone]
  cases exStall (Core.run resetPc x t) with
  | true => simp
  | false => cases hv : (Core.run resetPc x t).idExQ.valid <;> simp [hsnap,hv]

theorem packetAt_report {t : Nat} {p : Packet} (h : packetAt resetPc x t = some p) :
    p = report (shadow resetPc x t) (Core.run resetPc x t) := by
  rw [packetAt,packet] at h
  split at h
  · exact (Option.some.inj h).symm
  · cases h

theorem packetAt_snapshot {t : Nat} {p : Packet} (h : packetAt resetPc x (t+2) = some p)
    (d : Word) : exDone (Core.run resetPc x t) = true ∧
      Snapshot (Core.run resetPc x t) d (shadow resetPc x (t+2)).mwQ := by
  have hdone := packetAt_isSome resetPc x t
  rw [h] at hdone
  have hs := (Core.exDone_valid hdone.symm).2
  refine ⟨hdone.symm,?_⟩
  rw [mwQ_eq,hs]
  exact snapshot_eff resetPc x t d

theorem packetAt_eq {t : Nat} {p : Packet} (h : packetAt resetPc x (t+2) = some p) :
    exDone (Core.run resetPc x t) = true ∧ p.pcRdata = (Core.run resetPc x t).idExQ.pc ∧
      p.insn = (Core.run resetPc x t).idExQ.insn ∧ p.trap = exTrap (Core.run resetPc x t) ∧
      p.pcWdata = exRedirectTarget (Core.run resetPc x t) := by
  obtain ⟨hdone,hsnap⟩ := packetAt_snapshot resetPc x h 0
  obtain ⟨_,hwb⟩ := Core.memWbQ_two resetPc x t
  rw [packetAt_report resetPc x h]
  refine ⟨hdone,?_,?_,hsnap.trap,hsnap.pcWdata⟩
  · simp only [report]
    split
    · exact (hwb ‹_›).1
    · exact hsnap.pcRdata
  · simp only [report]
    split
    · exact (hwb ‹_›).2
    · exact hsnap.insn

/-! ### The trace -/

def lastWrite (l : List Packet) (r : BitVec 5) : Word :=
  l.foldl (fun w p => if p.rdAddr = r then p.rdWdata else w) 0

def lastPc (resetPc : Word) (l : List Packet) : Word :=
  (l.getLast?.map Packet.pcWdata).getD resetPc

theorem lastWrite_concat (l : List Packet) (p : Packet) (r : BitVec 5) :
    lastWrite (l ++ [p]) r = if p.rdAddr = r then p.rdWdata else lastWrite l r := by
  simp [lastWrite,List.foldl_append]

theorem lastPc_concat (l : List Packet) (p : Packet) : lastPc resetPc (l ++ [p]) = p.pcWdata := by
  simp [lastPc]

theorem wb_of_mem (t : Nat) (r : BitVec 5) :
    (Core.wbWe (Core.run resetPc x (t+2)) && (Core.run resetPc x (t+2)).memWbQ.rdAddr == r) =
      Core.memWrites (Core.run resetPc x (t+1)) r ∧
    (Core.run resetPc x (t+2)).memWbQ.wbData =
      (Core.run resetPc x (t+1)).exMemQ.result (x (t+1)).dmemRdata := ⟨rfl,rfl⟩

/-- The registers the packets describe are the drained register file. -/
theorem reports_regs (t : Nat) (r : BitVec 5) :
    lastWrite (reports resetPc x (t+2)) r =
      archRegs (Core.run resetPc x t) (x t).dmemRdata r := by
  induction t with
  | zero => rfl
  | succ t ih =>
    obtain ⟨hwr,hdata⟩ := wb_of_mem resetPc x t r
    rw [Core.run_next,Core.archRegs_next,← Core.run_next,← hwr,← hdata,← ih]
    cases hp : packetAt resetPc x (t+2) with
    | none =>
      have hsome := packetAt_isSome resetPc x t
      rw [hp] at hsome
      have hv : (Core.run resetPc x (t+2)).memWbQ.valid = false := by
        rw [(Core.memWbQ_two resetPc x t).1,Core.retires,← hsome]
        rfl
      have hwe : Core.wbWe (Core.run resetPc x (t+2)) = false := by simp [Core.wbWe,hv]
      rw [reports,Clocked.events_succ_none hp,hwe]
      rfl
    | some p =>
      rw [reports,Clocked.events_succ_some hp,lastWrite_concat,packetAt_report resetPc x hp]
      simp only [report]
      by_cases hwe : Core.wbWe (Core.run resetPc x (t+2)) = true
      · simp only [hwe,if_true,Bool.true_and,beq_iff_eq]
        rfl
      · simp only [hwe,if_false,Bool.false_and,Bool.false_eq_true]
        -- a packet without a write names `x0` and zero
        by_cases hr : 0 = r
        · subst hr
          have hzero := ih.trans (Core.archRegs_zero resetPc x t _)
          rw [if_pos rfl]
          exact hzero.symm
        · rw [if_neg hr]
          rfl

theorem reports_pc (t : Nat) :
    lastPc resetPc (reports resetPc x (t+2)) = Core.archPc resetPc x t := by
  induction t with
  | zero => rfl
  | succ t ih =>
    have hsome := packetAt_isSome resetPc x t
    rw [Core.archPc,Core.pathNext]
    cases hp : packetAt resetPc x (t+2) with
    | none =>
      rw [hp] at hsome
      rw [reports,Clocked.events_succ_none hp,← hsome]
      exact ih
    | some p =>
      obtain ⟨hdone,_,_,_,hpc⟩ := packetAt_eq resetPc x hp
      rw [reports,Clocked.events_succ_some hp,lastPc_concat,hdone,if_pos rfl,hpc]

theorem orderQ_eq (t : Nat) :
    (shadow resetPc x t).orderQ = BitVec.ofNat 64 (reports resetPc x t).length := by
  induction t with
  | zero => rfl
  | succ t ih =>
    rw [shadow_succ,reports]
    change (if (shadow resetPc x t).mwQ.valid then _ else _) = _
    cases hv : (shadow resetPc x t).mwQ.valid with
    | false =>
      have hp : packetAt resetPc x t = none := by simp [packetAt,packet,hv]
      rw [Clocked.events_succ_none hp]
      exact ih
    | true =>
      have hp : packetAt resetPc x t = some (report (shadow resetPc x t)
          (Core.run resetPc x t)) := by simp [packetAt,packet,hv]
      rw [Clocked.events_succ_some hp,if_pos rfl,ih,List.length_append,List.length_singleton,
        BitVec.ofNat_add]
      rfl

/-- What the report port promises about a run. -/
structure Faithful : Prop where
  /-- One packet, two cycles later, for each instruction that finishes in EX. -/
  complete : ∀ t, (packetAt resetPc x (t+2)).isSome = exDone (Core.run resetPc x t)
  early : packetAt resetPc x 0 = none ∧ packetAt resetPc x 1 = none
  content : ∀ t p, packetAt resetPc x (t+2) = some p →
    p.pcRdata = (Core.run resetPc x t).idExQ.pc ∧ p.insn = (Core.run resetPc x t).idExQ.insn ∧
      p.trap = exTrap (Core.run resetPc x t)
  order : ∀ t p, packetAt resetPc x t = some p →
    p.order = BitVec.ofNat 64 (reports resetPc x t).length
  chain : ∀ t p, packetAt resetPc x t = some p →
    p.pcRdata = lastPc resetPc (reports resetPc x t)
  rs1 : ∀ t p, packetAt resetPc x t = some p → (decode p.insn).usesRs1 = true →
    p.rs1Addr = rs1Field p.insn ∧ p.rs1Rdata = lastWrite (reports resetPc x t) p.rs1Addr
  rs2 : ∀ t p, packetAt resetPc x t = some p → (decode p.insn).usesRs2 = true →
    p.rs2Addr = rs2Field p.insn ∧ p.rs2Rdata = lastWrite (reports resetPc x t) p.rs2Addr
  commit : ∀ t, (Core.commit (Core.run resetPc x t)).map (fun c => (c.pc,c.insn)) =
    (packetAt resetPc x t).bind (fun p => if p.trap then none else some (p.pcRdata,p.insn))
  trap : ∀ t p, packetAt resetPc x t = some p → p.trap = true →
    p.rdAddr = 0 ∧ p.rdWdata = 0 ∧ p.memRmask = 0 ∧ p.memWmask = 0

theorem packetAt_late {t : Nat} {p : Packet} (h : packetAt resetPc x t = some p) :
    ∃ u, t = u+2 := by
  match t with
  | 0 => cases h
  | 1 => cases h
  | u+2 => exact ⟨u,rfl⟩

theorem packetAt_source {t : Nat} {p : Packet} (h : packetAt resetPc x (t+2) = some p) :
    Core.Decoded (Core.run resetPc x t).idExQ ∧
      (((Core.run resetPc x t).idExQ.ctrl.usesRs1 = true →
          (shadow resetPc x (t+2)).mwQ.rs1Addr = (Core.run resetPc x t).idExQ.rs1Addr ∧
          (shadow resetPc x (t+2)).mwQ.rs1Rdata = archRegs (Core.run resetPc x t)
            (x t).dmemRdata (Core.run resetPc x t).idExQ.rs1Addr) ∧
        ((Core.run resetPc x t).idExQ.ctrl.usesRs2 = true →
          (shadow resetPc x (t+2)).mwQ.rs2Addr = (Core.run resetPc x t).idExQ.rs2Addr ∧
          (shadow resetPc x (t+2)).mwQ.rs2Rdata = archRegs (Core.run resetPc x t)
            (x t).dmemRdata (Core.run resetPc x t).idExQ.rs2Addr)) ∧
      p = report (shadow resetPc x (t+2)) (Core.run resetPc x (t+2)) ∧
      p.insn = (Core.run resetPc x t).idExQ.insn := by
  obtain ⟨hdone,hsnap⟩ := packetAt_snapshot resetPc x h (x t).dmemRdata
  have hv := (Core.exDone_valid hdone).1
  exact ⟨Core.run_decoded resetPc x t hv,⟨hsnap.rs1 hv,hsnap.rs2 hv⟩,
    packetAt_report resetPc x h,(packetAt_eq resetPc x h).2.2.1⟩

theorem commit_eq (t : Nat) :
    (Core.commit (Core.run resetPc x t)).map (fun c => (c.pc,c.insn)) =
    (packetAt resetPc x t).bind (fun p => if p.trap then none else some (p.pcRdata,p.insn)) := by
  match t with
  | 0 => rfl
  | 1 => rfl
  | u+2 =>
    have hsome := packetAt_isSome resetPc x u
    obtain ⟨hv,hwb⟩ := Core.memWbQ_two resetPc x u
    rw [Core.retires] at hv
    rw [Core.commit,hv]
    cases hp : packetAt resetPc x (u+2) with
    | none =>
      rw [hp] at hsome
      rw [← hsome]
      rfl
    | some p =>
      obtain ⟨hdone,hpc,hi,ht,_⟩ := packetAt_eq resetPc x hp
      cases htr : exTrap (Core.run resetPc x u) with
      | true => simp [hdone,ht,htr]
      | false =>
        rw [hdone,htr] at hv
        obtain ⟨hwpc,hwi⟩ := hwb hv
        simp [hdone,ht,htr,hpc,hi,hwpc,hwi]

theorem rvfi_faithful : Faithful resetPc x where
  complete := packetAt_isSome resetPc x
  early := ⟨rfl,rfl⟩
  content t p h := by
    obtain ⟨_,h1,h2,h3,_⟩ := packetAt_eq resetPc x h
    exact ⟨h1,h2,h3⟩
  order t p h := by
    rw [packetAt_report resetPc x h]
    exact orderQ_eq resetPc x t
  chain t p h := by
    obtain ⟨u,rfl⟩ := packetAt_late resetPc x h
    obtain ⟨hdone,hpc,_⟩ := packetAt_eq resetPc x h
    rw [hpc,reports_pc]
    exact (Core.run_flow resetPc x u).exPc (Core.exDone_valid hdone).1
  rs1 t p h hu := by
    obtain ⟨u,rfl⟩ := packetAt_late resetPc x h
    obtain ⟨hd,hsnap,hrep,hi⟩ := packetAt_source resetPc x h
    rw [hi,← hd.ctrl] at hu
    obtain ⟨ha,hr⟩ := hsnap.1 hu
    rw [hi,← hd.rs1Addr,hrep]
    exact ⟨ha,hr.trans (by rw [← reports_regs]; exact congrArg _ ha.symm)⟩
  rs2 t p h hu := by
    obtain ⟨u,rfl⟩ := packetAt_late resetPc x h
    obtain ⟨hd,hsnap,hrep,hi⟩ := packetAt_source resetPc x h
    rw [hi,← hd.ctrl] at hu
    obtain ⟨ha,hr⟩ := hsnap.2 hu
    rw [hi,← hd.rs2Addr,hrep]
    exact ⟨ha,hr.trans (by rw [← reports_regs]; exact congrArg _ ha.symm)⟩
  commit := commit_eq resetPc x
  trap t p h ht := by
    obtain ⟨u,rfl⟩ := packetAt_late resetPc x h
    obtain ⟨_,hsnap⟩ := packetAt_snapshot resetPc x h 0
    have htr := (packetAt_eq resetPc x h).2.2.2.1
    have hrep := packetAt_report resetPc x h
    have hwe : Core.wbWe (Core.run resetPc x (u+2)) = false := by
      rw [Core.wbWe,(Core.memWbQ_two resetPc x u).1,Core.retires,← htr,ht]
      simp
    rw [hrep] at ht
    obtain ⟨hrm,hwm⟩ := hsnap.quiet ht
    rw [hrep]
    simp only [report,hwe]
    exact ⟨rfl,rfl,hrm,hwm⟩

end run

end Rvntt.Rvfi
