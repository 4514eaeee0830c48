import Rvntt.SocRefinement
import Rvntt.UartLink
set_option autoImplicit false

/-!
The UART as its software sees it: the order in which a program may use the registers, and
that nothing is lost when it keeps to it.
-/

namespace Rvntt

/-! ### The registers in order -/

/-- What an instruction does to the UART: a byte stored to UART_TX, a word read from
UART_STAT, a byte read from UART_RX, and the store that consumes it. -/
inductive UartOp where
  | send (b : BitVec 8)
  | status (v : BitVec 8)
  | data (b : BitVec 8)
  | take
  deriving DecidableEq, Repr

namespace UartOp

/-- A byte is sent only after a status with `tx_ready`, one for each; `ready` says that there
has been one. -/
def txNext (ready : Bool) : UartOp → Option Bool
  | send _ => if ready then some false else none
  | status v => some (ready || v.getLsbD 0)
  | data _ | take => some ready

/-- What has been read: the `rx_valid` of a byte that waits, its value since then, and the
bytes consumed so far. -/
structure Reader where
  valid : Bool := false
  byte : Option (BitVec 8) := none
  received : List (BitVec 8) := []
  deriving DecidableEq, Repr

/-- A byte is consumed only after a status with `rx_valid` and a read of it. -/
def rxNext (s : Reader) : UartOp → Option Reader
  | send _ => some s
  | status v => some {s with valid := s.valid || v.getLsbD 1}
  | data b => some (if s.valid then {s with byte := some b} else s)
  | take => s.byte.map fun b => {received := s.received ++ [b]}

def sent : UartOp → Option (BitVec 8)
  | send b => some b
  | _ => none

end UartOp

/-! ### The two sides -/

namespace UartDriver

open UartOp

section run

variable (p : UartParams) (op : Nat → Option UartOp) (rx overrunClr : Nat → Bool)

def txIn (t : Nat) : UartTx.In where
  data := ((op t).bind sent).getD 0
  valid := ((op t).bind sent).isSome

def rxIn (t : Nat) : UartRx.In := ⟨rx t,op t == some .take,overrunClr t⟩

def ops (t : Nat) : List UartOp := Clocked.events op t

structure Honest : Prop where
  status : ∀ t v, op t = some (.status v) →
    v.getLsbD 0 = UartTx.ready (UartTx.run p (txIn op) t) ∧
      v.getLsbD 1 = (UartRx.run p (rxIn op rx overrunClr) t).valid
  data : ∀ t b, op t = some (.data b) → b = (UartRx.run p (rxIn op rx overrunClr) t).data

variable {p op rx overrunClr}

theorem ops_succ (t : Nat) : ops op (t+1) = ops op t ++ (op t).toList := rfl

theorem foldlM_succ {σ : Type} {next : σ → UartOp → Option σ} {s s' : σ} {t : Nat}
    (h : (ops op (t+1)).foldlM next s = some s') : ∃ r, (ops op t).foldlM next s = some r ∧
      ((op t = none ∧ s' = r) ∨ ∃ o, op t = some o ∧ next r o = some s') := by
  rw [ops_succ,List.foldlM_append] at h
  obtain ⟨r,hr,h⟩ := Option.bind_eq_some_iff.mp h
  refine ⟨r,hr,?_⟩
  cases ho : op t with
  | none =>
    rw [ho] at h
    exact .inl ⟨rfl,(Option.some.inj h).symm⟩
  | some o =>
    rw [ho] at h
    obtain ⟨r',hr',h⟩ := Option.bind_eq_some_iff.mp h
    exact .inr ⟨o,rfl,hr'.trans h⟩

/-! ### Sending -/

theorem ready_next {s : UartTx.State p} (h : UartTx.ready s = true) (d : BitVec 8) :
    UartTx.ready (UartTx.next s d false) = true := by
  have hb : s.busyQ = false := by simpa [UartTx.ready] using h
  simp [UartTx.next,UartTx.ready,hb]

theorem tx_known (hh : Honest p op rx overrunClr) (t : Nat) {ready : Bool}
    (h : (ops op t).foldlM txNext false = some ready) (hr : ready = true) :
    UartTx.ready (UartTx.run p (txIn op) t) = true := by
  induction t generalizing ready with
  | zero =>
    obtain rfl := Option.some.inj h
    cases hr
  | succ t ih =>
    obtain ⟨r,hfold,hstep⟩ := foldlM_succ h
    have hnext : ∀ hv : (txIn op t).valid = false,
        UartTx.ready (UartTx.run p (txIn op) t) = true →
        UartTx.ready (UartTx.run p (txIn op) (t+1)) = true := by
      intro hv hr
      change UartTx.ready (UartTx.next _ _ (txIn op t).valid) = true
      rw [hv]
      exact ready_next hr _
    rcases hstep with ⟨ho,rfl⟩ | ⟨o,ho,hn⟩
    · exact hnext (by rw [txIn,ho]; rfl) (ih hfold hr)
    · cases o with
      | send b =>
        rw [txNext] at hn
        split at hn
        · rw [hr] at hn
          cases hn
        · cases hn
      | status v =>
        obtain rfl := Option.some.inj hn
        refine hnext (by rw [txIn,ho]; rfl) ?_
        rcases (Bool.or_eq_true _ _).mp hr with hr | hr
        · exact ih hfold hr
        · rw [← (hh.status t v ho).1]
          exact hr
      | data b =>
        obtain rfl := Option.some.inj hn
        exact hnext (by rw [txIn,ho]; rfl) (ih hfold hr)
      | take =>
        obtain rfl := Option.some.inj hn
        exact hnext (by rw [txIn,ho]; rfl) (ih hfold hr)

/-- Every byte it sends is accepted in the cycle of the store. -/
theorem tx_accepted (hh : Honest p op rx overrunClr)
    (h : ∀ t, ((ops op t).foldlM txNext false).isSome = true) (t : Nat) :
    UartTx.accepted p (txIn op) t = (op t).bind sent := by
  obtain ⟨s,hs⟩ := Option.isSome_iff_exists.mp (h (t+1))
  obtain ⟨r,hfold,hstep⟩ := foldlM_succ hs
  have hquiet : (op t).bind sent = none → UartTx.accepted p (txIn op) t = none := by
    intro hn
    rw [UartTx.accepted,txIn,hn]
    simp
  rcases hstep with ⟨ho,_⟩ | ⟨o,ho,hn⟩
  · rw [ho]
    exact hquiet (by rw [ho]; rfl)
  · cases o with
    | send b =>
      rw [txNext] at hn
      split at hn
      · rename_i hr
        rw [UartTx.accepted,tx_known hh t hfold hr,txIn,ho]
        rfl
      · cases hn
    | status v => rw [ho]; exact hquiet (by rw [ho]; rfl)
    | data b => rw [ho]; exact hquiet (by rw [ho]; rfl)
    | take => rw [ho]; exact hquiet (by rw [ho]; rfl)

/-! ### Receiving -/

structure Knows (s : Reader) (r : UartRx.State p) : Prop where
  valid : s.valid = true → r.valid = true
  byte : ∀ b, s.byte = some b → r.valid = true ∧ r.data = b

theorem knows_fresh (l : List (BitVec 8)) (r : UartRx.State p) : Knows {received := l} r := by
  constructor
  · intro h
    cases h
  · intro b h
    cases h

def pending (r : UartRx.State p) : List (BitVec 8) := if r.valid then [r.data] else []

theorem presented_succ (x : Nat → UartRx.In) (t : Nat) : UartRx.presented p x (t+1) =
    UartRx.presented p x t ++ if (UartRx.run p x t).valid && !(x t).ack then []
      else pending (UartRx.run p x (t+1)) := by
  rw [UartRx.presented,Clocked.events_succ,← UartRx.presented,UartRx.presentedAt,pending]
  cases (UartRx.run p x (t+1)).valid with
  | false => simp
  | true =>
    cases (UartRx.run p x t).valid && !(x t).ack with
    | false => rfl
    | true => rfl

theorem knows_held {s : Reader} {x : Nat → UartRx.In} {t : Nat} (ha : (x t).ack = false)
    (h : Knows s (UartRx.run p x t)) : Knows s (UartRx.run p x (t+1)) := by
  refine ⟨fun hv => (UartRx.run_held (h.valid hv) ha).1,fun b hb => ?_⟩
  obtain ⟨hv,hd⟩ := h.byte b hb
  obtain ⟨h1,h2⟩ := UartRx.run_held hv ha
  exact ⟨h1,h2.trans hd⟩

theorem rx_known (hh : Honest p op rx overrunClr) (t : Nat) {s : Reader}
    (h : (ops op t).foldlM rxNext {} = some s) :
    Knows s (UartRx.run p (rxIn op rx overrunClr) t) ∧
      UartRx.presented p (rxIn op rx overrunClr) t =
        s.received ++ pending (UartRx.run p (rxIn op rx overrunClr) t) := by
  induction t generalizing s with
  | zero =>
    obtain rfl := Option.some.inj h
    exact ⟨knows_fresh _ _,rfl⟩
  | succ t ih =>
    obtain ⟨r,hfold,hstep⟩ := foldlM_succ h
    obtain ⟨hk,hp⟩ := ih hfold
    -- without a `take` what waits stands, and what arrives is presented
    have hstand : op t ≠ some .take → UartRx.presented p (rxIn op rx overrunClr) (t+1) =
        r.received ++ pending (UartRx.run p (rxIn op rx overrunClr) (t+1)) ∧
        Knows r (UartRx.run p (rxIn op rx overrunClr) (t+1)) := by
      intro hne
      have ha : (rxIn op rx overrunClr t).ack = false := beq_eq_false_iff_ne.mpr hne
      refine ⟨?_,knows_held ha hk⟩
      rw [presented_succ,hp,ha]
      cases hv : (UartRx.run p (rxIn op rx overrunClr) t).valid with
      | false => simp [pending,hv]
      | true =>
        obtain ⟨h1,h2⟩ := UartRx.run_held hv ha
        simp [pending,hv,h1,h2]
    rcases hstep with ⟨ho,rfl⟩ | ⟨o,ho,hn⟩
    · obtain ⟨h1,h2⟩ := hstand (by simp [ho])
      exact ⟨h2,h1⟩
    · cases o with
      | send b =>
        obtain rfl := Option.some.inj hn
        obtain ⟨h1,h2⟩ := hstand (by simp [ho])
        exact ⟨h2,h1⟩
      | status v =>
        obtain rfl := Option.some.inj hn
        obtain ⟨h1,h2⟩ := hstand (by simp [ho])
        refine ⟨⟨fun hv => ?_,h2.byte⟩,h1⟩
        rcases (Bool.or_eq_true _ _).mp hv with hv | hv
        · exact h2.valid hv
        · have ha : (rxIn op rx overrunClr t).ack = false :=
            beq_eq_false_iff_ne.mpr (by simp [ho])
          exact (UartRx.run_held ((hh.status t v ho).2 ▸ hv) ha).1
      | data b =>
        obtain rfl := Option.some.inj hn
        obtain ⟨h1,h2⟩ := hstand (by simp [ho])
        split
        · rename_i hv
          refine ⟨⟨h2.valid,fun b' hb => ?_⟩,h1⟩
          have ha : (rxIn op rx overrunClr t).ack = false :=
            beq_eq_false_iff_ne.mpr (by simp [ho])
          obtain ⟨h3,h4⟩ := UartRx.run_held (hk.valid hv) ha
          exact ⟨h3,h4.trans ((hh.data t b ho).symm.trans (Option.some.inj hb))⟩
        · exact ⟨h2,h1⟩
      | take =>
        obtain ⟨b,hb,rfl⟩ := Option.map_eq_some_iff.mp hn
        obtain ⟨hv,hd⟩ := hk.byte b hb
        have ha : (rxIn op rx overrunClr t).ack = true := beq_iff_eq.mpr ho
        refine ⟨knows_fresh _ _,?_⟩
        rw [presented_succ,hp,ha,pending,if_pos hv,hd,Bool.not_true,Bool.and_false,
          if_neg Bool.false_ne_true]

end run

end UartDriver

/-! ### On the SoC -/

namespace Isa

def Hart.loaded (h : Hart) (w : View) : Option (Word × Word) :=
  match Instr.decode w.insn with
  | some (.load op _ _ imm) =>
    let a := (h.env w).rs1+simm imm
    if a.toNat % op.size = 0 then some (a,op.value w.mem a) else none
  | _ => none

def uartRead (p : Mmio.Params) (a v : Word) : Option UartOp :=
  if Bus.InMmio p a ∧ a.toNat % 64 = 4 then some (.status (v.extractLsb' 0 8))
  else if Bus.InMmio p a ∧ a.toNat % 64 = 8 then some (.data (v.extractLsb' 0 8))
  else none

def uartWrite (st : Nat × Word) : Option UartOp :=
  if st.1 = 0 then some (.send (st.2.extractLsb' 0 8))
  else if st.1 = 2 then some .take
  else none

def Machine.uartOp {aw : Nat} (p : Mmio.Params) (m : Machine aw) (i : SocIn) : Option UartOp :=
  match (m.socAccess p i).toDevice p with
  | some st => uartWrite st
  | none => (m.toHart.loaded (m.socView p i.dev)).bind fun r => uartRead p r.1 r.2

end Isa

namespace SocTop

open Isa Core

section run

variable {aw : Nat} (p : Params) (w : Predicted.PowerUp) (ram : Ram aw) (x : Nat → In)

def uartAt (t : Nat) : Option UartOp :=
  if exDone (core p w ram x t) then
    (software p w ram x t).uartOp p.toParams (inputAt p w ram x t)
  else none

def storedAt (t : Nat) : Option (Nat × Word) :=
  if exDone (core p w ram x t) then
    ((software p w ram x t).socAccess p.toParams (inputAt p w ram x t)).toDevice p.toParams
  else none

def clearAt (t : Nat) : Bool :=
  ((storedAt p w ram x t).map fun s => s.1 == 1 && s.2.getLsbD 2).getD false

variable {p w ram x}

theorem low_signExtend {n : Nat} (v : BitVec n) (h : 8 ≤ n) :
    (v.signExtend 32).extractLsb' 0 8 = v.extractLsb' 0 8 := by
  refine BitVec.eq_of_getLsbD_eq fun k hk => ?_
  rw [BitVec.getLsbD_extractLsb',BitVec.getLsbD_extractLsb',BitVec.getLsbD_signExtend]
  simp [show k < n by omega,show k < 32 by omega]

theorem low_setWidth {n : Nat} (v : BitVec n) :
    (v.setWidth 32).extractLsb' 0 8 = v.extractLsb' 0 8 := by
  refine BitVec.eq_of_getLsbD_eq fun k hk => ?_
  rw [BitVec.getLsbD_extractLsb',BitVec.getLsbD_extractLsb',BitVec.getLsbD_setWidth]
  simp [show k < 32 by omega]

theorem loaded_low (op : LoadOp) (mem : Word → BitVec 8) (a : Word) :
    (op.value mem a).extractLsb' 0 8 = mem a := by
  have hl := @Bits.extract_low
  cases op with
  | lb => exact (low_signExtend _ (by omega)).trans BitVec.extractLsb'_eq_self
  | lh => exact (low_signExtend _ (by omega)).trans (hl _ _)
  | lw => exact hl _ _
  | lbu => exact (low_setWidth _).trans BitVec.extractLsb'_eq_self
  | lhu => exact (low_setWidth _).trans (hl _ _)

theorem uartWrite_status {st : Nat × Word} {v : BitVec 8} : uartWrite st ≠ some (.status v) := by
  rw [uartWrite]
  split
  · simp
  · split
    · simp
    · simp

theorem uartWrite_data {st : Nat × Word} {b : BitVec 8} : uartWrite st ≠ some (.data b) := by
  rw [uartWrite]
  split
  · simp
  · split
    · simp
    · simp

theorem uartRead_some {q : Mmio.Params} {a v : Word} {o : UartOp} (h : uartRead q a v = some o) :
    Bus.InMmio q a ∧ ((a.toNat % 64 = 4 ∧ o = .status (v.extractLsb' 0 8)) ∨
      (a.toNat % 64 = 8 ∧ o = .data (v.extractLsb' 0 8))) := by
  rw [uartRead] at h
  split at h
  · rename_i hc
    exact ⟨hc.1,.inl ⟨hc.2,(Option.some.inj h).symm⟩⟩
  · split at h
    · rename_i hc
      exact ⟨hc.1,.inr ⟨hc.2,(Option.some.inj h).symm⟩⟩
    · cases h

/-- What the program reads is the register of the device in that cycle. -/
theorem loaded_device (hb : p.ramBase.toNat % 4 = 0) (hns : NoFetchedStore p w ram x) {t : Nat}
    (hd : exDone (core p w ram x t) = true) {r : Word × Word}
    (hr : (software p w ram x t).toHart.loaded ((software p w ram x t).socView p.toParams
      (inputAt p w ram x t).dev) = some r) (hm : Bus.InMmio p.toParams r.1)
    (hz : r.1.toNat % 4 = 0) : r.2.extractLsb' 0 8 =
      (Bus.readValue (devices p w ram x t) (pinsAt p w ram x t) r.1).extractLsb' 0 8 := by
  have harch := arch_software hb hns t
  have hi := insn_eq hb hns (fun u _ => arch_software hb hns u) hd
  rw [← harch,Hart.loaded] at hr
  split at hr
  · rename_i op rd rs1 imm hdec
    have hdec' : Instr.decode (core p w ram x t).idExQ.insn = some (.load op rd rs1 imm) :=
      (congrArg Instr.decode hi).trans hdec
    have haddr := hart_load hd hdec'
    rw [hi] at haddr
    dsimp only at hr
    split at hr
    · obtain rfl := Option.some.inj hr
      rw [loaded_low]
      change (if Bus.InRam _ _ then _ else _) = _
      rw [if_neg (Bus.not_both hm)]
      rw [hz,inputAt,haddr]
      rfl
    · cases hr
  · cases hr

theorem devices_stored (hb : p.ramBase.toNat % 4 = 0) (hns : NoFetchedStore p w ram x) (t : Nat) :
    devices p w ram x (t+1) =
      (devices p w ram x t).stored (pinsAt p w ram x t) (storedAt p w ram x t) :=
  (implements_soc hb hns t).2.2

theorem uartAt_stored {t : Nat} {st : Nat × Word} (h : storedAt p w ram x t = some st) :
    uartAt p w ram x t = uartWrite st := by
  rw [storedAt] at h
  split at h
  · rename_i hd
    rw [uartAt,if_pos hd,Machine.uartOp,h]
  · cases h

theorem uartAt_read {t : Nat} {o : UartOp} (hst : storedAt p w ram x t = none)
    (h : uartAt p w ram x t = some o) : exDone (core p w ram x t) = true ∧
      ∃ r, (software p w ram x t).toHart.loaded ((software p w ram x t).socView p.toParams
        (inputAt p w ram x t).dev) = some r ∧ uartRead p.toParams r.1 r.2 = some o := by
  rw [uartAt] at h
  split at h
  · rename_i hd
    rw [storedAt,if_pos hd] at hst
    rw [Machine.uartOp,hst] at h
    exact ⟨hd,Option.bind_eq_some_iff.mp h⟩
  · cases h

theorem uartAt_not_store {t : Nat} (h : storedAt p w ram x t = none) :
    (uartAt p w ram x t).bind UartOp.sent = none ∧ uartAt p w ram x t ≠ some .take := by
  cases ho : uartAt p w ram x t with
  | none => exact ⟨rfl,by simp⟩
  | some o =>
    obtain ⟨_,r,_,hr⟩ := uartAt_read h ho
    rcases (uartRead_some hr).2 with ⟨_,rfl⟩ | ⟨_,rfl⟩
    · exact ⟨rfl,by simp⟩
    · exact ⟨rfl,by simp⟩

theorem tx_run (hb : p.ramBase.toNat % 4 = 0) (hns : NoFetchedStore p w ram x) (t : Nat) :
    (devices p w ram x t).tx =
      UartTx.run p.toUartParams (UartDriver.txIn (uartAt p w ram x)) t := by
  induction t with
  | zero => rfl
  | succ t ih =>
    rw [devices_stored hb hns,Mmio.Devices.stored,ih]
    change UartTx.next _ _ _ = UartTx.next _ _ _
    cases hst : storedAt p w ram x t with
    | none =>
      rw [UartDriver.txIn,(uartAt_not_store hst).1]
      rfl
    | some st =>
      rw [UartDriver.txIn,uartAt_stored hst,uartWrite]
      by_cases h0 : st.1 = 0
      · rw [if_pos h0]
        simp only [Option.map_some,Option.getD_some,Option.bind_some,UartOp.sent,h0]
        rfl
      · have hb0 : (st.1 == 0) = false := beq_eq_false_iff_ne.mpr h0
        have hnone : ((if st.1 = 0 then some (UartOp.send (st.2.extractLsb' 0 8))
            else if st.1 = 2 then some .take else none).bind UartOp.sent) = none := by
          rw [if_neg h0]
          split <;> rfl
        rw [hnone]
        simp only [Option.map_some,Option.getD_some,hb0]
        exact UartTx.next_idle _ _

theorem rx_run (hb : p.ramBase.toNat % 4 = 0) (hns : NoFetchedStore p w ram x) (t : Nat) :
    (devices p w ram x t).rx = UartRx.run p.toUartParams (UartDriver.rxIn (uartAt p w ram x)
      (fun t => (x t).uartTxdIn) (clearAt p w ram x)) t := by
  induction t with
  | zero => rfl
  | succ t ih =>
    rw [devices_stored hb hns,Mmio.Devices.stored,ih]
    change UartRx.next _ _ _ _ = UartRx.next _ _ _ _
    have hack : ((storedAt p w ram x t).map fun s => s.1 == 2).getD false =
        (uartAt p w ram x t == some .take) := by
      cases hst : storedAt p w ram x t with
      | none =>
        exact (beq_eq_false_iff_ne.mpr (uartAt_not_store hst).2).symm
      | some st =>
        rw [uartAt_stored hst,uartWrite]
        by_cases h0 : st.1 = 0
        · simp [h0]
        · by_cases h2 : st.1 = 2
          · simp [h2]
          · simp [h0,h2]
    rw [hack]
    rfl

theorem read_status {d : Mmio.Devices p.toParams} {pins : Mmio.Pins} {a : Word}
    (h : a.toNat % 64 = 4) : ((Bus.readValue d pins a).extractLsb' 0 8).getLsbD 0 =
      UartTx.ready d.tx ∧ ((Bus.readValue d pins a).extractLsb' 0 8).getLsbD 1 = d.rx.valid := by
  have hr : Bus.registerAt a = some .uartStat := by
    rw [Bus.registerAt,h]
    rfl
  rw [Bus.readValue,hr]
  change ((BitVec.ofNat 32 _).extractLsb' 0 8).getLsbD 0 = _ ∧
    ((BitVec.ofNat 32 _).extractLsb' 0 8).getLsbD 1 = _
  cases d.rx.overrun <;> cases d.rx.valid <;> cases UartTx.ready d.tx <;> exact ⟨rfl,rfl⟩

theorem read_data {d : Mmio.Devices p.toParams} {pins : Mmio.Pins} {a : Word}
    (h : a.toNat % 64 = 8) : (Bus.readValue d pins a).extractLsb' 0 8 = d.rx.data := by
  have hr : Bus.registerAt a = some .uartRx := by
    rw [Bus.registerAt,h]
    rfl
  rw [Bus.readValue,hr]
  change (BitVec.ofNat 32 d.rx.data.toNat).extractLsb' 0 8 = _
  refine BitVec.eq_of_toNat_eq ?_
  have := d.rx.data.isLt
  rw [Bits.extract_toNat,BitVec.toNat_ofNat]
  omega

theorem honest (hb : p.ramBase.toNat % 4 = 0) (hns : NoFetchedStore p w ram x) :
    UartDriver.Honest p.toUartParams (uartAt p w ram x) (fun t => (x t).uartTxdIn)
      (clearAt p w ram x) := by
  have hread : ∀ t o, uartAt p w ram x t = some o → (∃ v, o = .status v) ∨ (∃ b, o = .data b) →
      ∃ a v : Word, v.extractLsb' 0 8 =
          (Bus.readValue (devices p w ram x t) (pinsAt p w ram x t) a).extractLsb' 0 8 ∧
        ((a.toNat % 64 = 4 ∧ o = .status (v.extractLsb' 0 8)) ∨
          (a.toNat % 64 = 8 ∧ o = .data (v.extractLsb' 0 8))) := by
    intro t o ho hor
    cases hst : storedAt p w ram x t with
    | some st =>
      rw [uartAt_stored hst] at ho
      rcases hor with ⟨v,rfl⟩ | ⟨b,rfl⟩
      · exact absurd ho uartWrite_status
      · exact absurd ho uartWrite_data
    | none =>
      obtain ⟨hd,r,hr,hro⟩ := uartAt_read hst ho
      obtain ⟨hm,hcase⟩ := uartRead_some hro
      have hz : r.1.toNat % 4 = 0 := by
        rcases hcase with ⟨h,_⟩ | ⟨h,_⟩ <;> omega
      exact ⟨r.1,r.2,loaded_device hb hns hd hr hm hz,hcase⟩
  constructor
  · intro t v h
    obtain ⟨a,u,hlow,⟨hz,ho⟩ | ⟨_,ho⟩⟩ := hread t _ h (.inl ⟨v,rfl⟩)
    · cases ho
      rw [hlow,← tx_run hb hns,← rx_run hb hns]
      exact read_status hz
    · cases ho
  · intro t b h
    obtain ⟨a,u,hlow,⟨_,ho⟩ | ⟨hz,ho⟩⟩ := hread t _ h (.inr ⟨b,rfl⟩)
    · cases ho
    · cases ho
      rw [hlow,← rx_run hb hns]
      exact read_data hz

/-- The line carries what the program sends when the transmitter takes it all. -/
theorem line_carries (hb : p.ramBase.toNat % 4 = 0) (hns : NoFetchedStore p w ram x)
    (hD : 0 < p.divisor) {q : Nat → Bool}
    (ho : ∀ t, (UartDriver.ops (uartAt p w ram x) t).foldlM UartOp.txNext false = some (q t)) :
    Serial.Carries p.divisor (Clocked.delayed (UartTx.latency p.toUartParams)
      fun t => (uartAt p w ram x t).bind UartOp.sent) fun t => (devices p w ram x t).tx.tx := by
  have hc := UartTx.run_carries (p := p.toUartParams) (UartDriver.txIn (uartAt p w ram x)) hD
  have hacc : UartTx.accepted p.toUartParams (UartDriver.txIn (uartAt p w ram x)) =
      fun t => (uartAt p w ram x t).bind UartOp.sent :=
    funext fun t => UartDriver.tx_accepted (honest hb hns) (fun t => by rw [ho t]; rfl) t
  have hline : (fun t => (devices p w ram x t).tx.tx) = fun t =>
      (UartTx.run p.toUartParams (UartDriver.txIn (uartAt p w ram x)) t).tx :=
    funext fun t => congrArg UartTx.State.tx (tx_run hb hns t)
  rw [hline,← hacc]
  exact hc

/-- Sending. The line carries every byte that the program stores to UART_TX, one frame each
and nothing else, when it stores one only after it has read `tx_ready` for it. -/
theorem transmits (hb : p.ramBase.toNat % 4 = 0) (hns : NoFetchedStore p w ram x)
    (hD : 0 < p.divisor) (ho : ∀ t,
      ((UartDriver.ops (uartAt p w ram x) t).foldlM UartOp.txNext false).isSome = true) :
    Serial.Carries p.divisor (Clocked.delayed (UartTx.latency p.toUartParams)
      fun t => (uartAt p w ram x t).bind UartOp.sent) fun t => (devices p w ram x t).tx.tx :=
  line_carries hb hns hD fun t => (Option.some_get (ho t)).symm

variable (p w ram x) in
/-- The program consumes each byte of a host before the next one is complete. -/
def InTime (h : Nat) (l : List (Nat × BitVec 8)) : Prop :=
  ∀ f f' b b', Serial.sends h l f = some b → Serial.sends h l f' = some b' → f < f' →
    ∃ u, UartRx.stopSample p.toUartParams f < u ∧ u ≤ UartRx.stopSample p.toUartParams f' ∧
      uartAt p w ram x u = some .take

theorem host_received (hb : p.ramBase.toNat % 4 = 0) (hns : NoFetchedStore p w ram x) {t : Nat}
    {s : UartOp.Reader}
    (hs : (UartDriver.ops (uartAt p w ram x) t).foldlM UartOp.rxNext {} = some s) {h : Nat}
    {l : List (Nat × BitVec 8)} (he : 9*((h : Int)-p.divisor) ≤ ((p.divisor/2 : Nat) : Int)+1)
    (hl : 10*(h : Int)-9*p.divisor ≥ ((p.divisor/2 : Nat) : Int)+2)
    (hline : ∀ u, (x u).uartTxdIn = Serial.line h l u) (htake : InTime p w ram x h l)
    (hdur : Serial.duration h l+UartRx.latency p.toUartParams ≤ t) :
    s.received ++ UartDriver.pending (devices p w ram x t).rx = l.map Prod.snd := by
  have hpres := (UartDriver.rx_known (honest hb hns) t hs).2
  have hsamp : UartRx.Samples p.toUartParams h := ⟨by omega,by omega⟩
  have hh : 0 < h := by
    have := hsamp.late
    omega
  have hc : Serial.Carries h (Serial.sends h l) fun u => (x u).uartTxdIn := by
    rw [show (fun u => (x u).uartTxdIn) = Serial.line h l from funext hline]
    exact Serial.carries_line hh l
  have hin : UartRx.InTime p.toUartParams (Serial.sends h l)
      fun u => uartAt p w ram x u == some .take := by
    intro f f' b b' hf hf' hlt
    obtain ⟨u,h1,h2,h3⟩ := htake f f' b b' hf hf' hlt
    exact ⟨u,h1,h2,beq_iff_eq.mpr h3⟩
  have hall := UartRx.presented_all (x := UartDriver.rxIn (uartAt p w ram x)
    (fun u => (x u).uartTxdIn) (clearAt p w ram x)) hc hsamp hin (t-UartRx.latency p.toUartParams)
  rw [Nat.sub_add_cancel (by omega),hpres,← rx_run hb hns] at hall
  obtain ⟨k,hk⟩ := Nat.exists_eq_add_of_le
    (show Serial.duration h l ≤ t-UartRx.latency p.toUartParams by omega)
  rw [hall,hk,Serial.events_sends hh l (Nat.le_add_right _ k)]

/-- Receiving. What the receiver has presented the program has read and consumed, in order and
once each, or it waits; and when every byte of a host is consumed in time, this is what the
host has sent. -/
theorem receives (hb : p.ramBase.toNat % 4 = 0) (hns : NoFetchedStore p w ram x) (ho : ∀ t,
    ((UartDriver.ops (uartAt p w ram x) t).foldlM UartOp.rxNext {}).isSome = true) :
    let y := UartDriver.rxIn (uartAt p w ram x) (fun t => (x t).uartTxdIn) (clearAt p w ram x)
    ∀ t, ∃ s, (UartDriver.ops (uartAt p w ram x) t).foldlM UartOp.rxNext {} = some s ∧
      UartRx.presented p.toUartParams y t =
        s.received ++ UartDriver.pending (devices p w ram x t).rx ∧
      ∀ (h : Nat) l, 9*((h : Int)-p.divisor) ≤ ((p.divisor/2 : Nat) : Int)+1 →
        10*(h : Int)-9*p.divisor ≥ ((p.divisor/2 : Nat) : Int)+2 →
        (∀ u, (x u).uartTxdIn = Serial.line h l u) → InTime p w ram x h l →
        Serial.duration h l+UartRx.latency p.toUartParams ≤ t →
        s.received ++ UartDriver.pending (devices p w ram x t).rx = l.map Prod.snd := by
  intro y t
  obtain ⟨s,hs⟩ := Option.isSome_iff_exists.mp (ho t)
  have hpres := (UartDriver.rx_known (honest hb hns) t hs).2
  rw [← rx_run hb hns] at hpres
  exact ⟨s,hs,hpres,fun h l he hl hline htake hdur => host_received hb hns hs he hl hline htake hdur⟩

end run

end SocTop

end Rvntt
