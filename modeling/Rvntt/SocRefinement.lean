import Rvntt.OpenCore
import Rvntt.SocTop
set_option autoImplicit false

/-!
`rvntt_soc_top` runs the machine of the specification with its memory in one region and
the peripherals in another.
-/

namespace Rvntt

open Core (exDone)

/-! ### The address map -/

namespace Bus

open Mmio (Params Devices Pins)

instance (p : Params) (addr : Word) : Decidable (InRam p addr) :=
  inferInstanceAs (Decidable (_ = _))

instance (p : Params) (addr : Word) : Decidable (InMmio p addr) :=
  inferInstanceAs (Decidable (_ = _))

def readValue {p : Params} (d : Devices p) (pins : Pins) (addr : Word) : Word :=
  ((registerAt addr).map (Register.value d pins)).getD 0

end Bus

def Access.toRam (p : Mmio.Params) : Access → Access
  | .store op a v => if Bus.InRam p a then .store op a v else .idle
  | acc => acc

/-- A store to the peripherals: the register by its number, and the value. -/
def Access.toDevice (p : Mmio.Params) : Access → Option (Nat × Word)
  | .store _ a v => if Bus.InMmio p a then some (a.toNat % 64/4,v) else none
  | _ => none

namespace Mmio

variable {p : Params}

def Devices.stored (d : Devices p) (pins : Pins) (st : Option (Nat × Word)) : Devices p where
  tx := UartTx.next d.tx ((st.map fun s => s.2.extractLsb' 0 8).getD 0)
    ((st.map fun s => s.1 == 0).getD false)
  rx := UartRx.next d.rx pins.uartRx ((st.map fun s => s.1 == 2).getD false)
    ((st.map fun s => s.1 == 1 && s.2.getLsbD 2).getD false)
  gpioOut := (st.bind fun s => if s.1 = 3 then some (s.2.extractLsb' 0 4) else none).getD d.gpioOut

end Mmio

namespace Isa

/-- What the outside gives to one step: the counters, and the word read from a register. -/
structure SocIn where
  vol : Volatile
  dev : Word

def Machine.socView {aw : Nat} (p : Mmio.Params) (m : Machine aw) (dev : Word) : Hart.View where
  insn := m.fetch p.ramBase
  mem a := if Bus.InRam p a then m.bytes p.ramBase a else dev.extractLsb' (8*(a.toNat % 4)) 8

def Machine.socAccess {aw : Nat} (p : Mmio.Params) (m : Machine aw) (i : SocIn) : Access :=
  m.toHart.store i.vol (m.socView p i.dev)

def Machine.socEvent {aw : Nat} (p : Mmio.Params) (m : Machine aw) (i : SocIn) : Event :=
  m.toHart.event i.vol (m.socView p i.dev)

def Machine.socStep {aw : Nat} (p : Mmio.Params) (m : Machine aw) (i : SocIn) : Machine aw where
  toHart := m.toHart.step i.vol (m.socView p i.dev)
  mem := m.memNext p.ramBase ((m.socAccess p i).toRam p)

def Machine.socRun {aw : Nat} (p : Mmio.Params) (m : Machine aw) (l : List SocIn) : Machine aw :=
  l.foldl (Machine.socStep p) m

end Isa

/-! ### One access -/

open Isa

section access

variable {p : Mmio.Params} {x : Ex} {acc : Access}

theorem Performs.store_low {op : StoreOp} {a v : Word} (h : Performs x (.store op a v)) :
    x.dmemWdata.extractLsb' 0 8 = v.extractLsb' 0 8 := by
  have hst := h.store_storing
  obtain ⟨_,_,_,hop,_,rfl,_⟩ := h
  have hl := @Bits.extract_low
  rw [Ex.dmemWdata,if_pos hst,hop]
  cases op with
  | sb => exact hl _ _
  | sh =>
    refine Eq.trans ?_ (Bits.extract_extract x.rs2Fwd 0 16 0 8 (by omega))
    exact BitVec.extractLsb'_append_eq_of_add_le (by omega)
  | sw => rfl

theorem Performs.stores {op : StoreOp} {a v : Word} (h : Performs x (.store op a v)) :
    x.dmemBe ≠ 0 := by
  intro hz
  have hk : a.toNat % 4 < 4 := Nat.mod_lt _ (by omega)
  have hsize : 0 < op.size := by cases op <;> decide
  have hb := (h.store_be hk).mpr ⟨Nat.le_refl _,Nat.lt_add_of_pos_right hsize⟩
  rw [hz] at hb
  simp at hb

theorem UartTx.next_idle {q : UartParams} (s : UartTx.State q) (d : BitVec 8) :
    UartTx.next s d false = UartTx.next s 0 false := by
  simp [UartTx.next]

theorem sel_beq (a : Mmio.Access) {k : Nat} (hk : k < 16) :
    (Mmio.sel a == BitVec.ofNat 4 k) = (a.addr.toNat % 64/4 == k) := by
  rw [Bool.eq_iff_iff,beq_iff_eq,beq_iff_eq,← Bus.sel_toNat,← BitVec.toNat_inj,
    BitVec.toNat_ofNat,Nat.mod_eq_of_lt hk]

theorem Performs.devices (h : Performs x acc) (d : Mmio.Devices p) (pins : Mmio.Pins) :
    Mmio.devicesNext d pins ⟨x.memAddr,x.dmemWdata,x.dmemBe⟩ = d.stored pins (acc.toDevice p) := by
  have hidle : ¬(Bus.Stores ⟨x.memAddr,x.dmemWdata,x.dmemBe⟩ ∧ Bus.InMmio p x.memAddr) →
      Mmio.devicesNext d pins ⟨x.memAddr,x.dmemWdata,x.dmemBe⟩ = d.stored pins none :=
    fun hn => (Bus.devices_of_not hn d pins).trans rfl
  cases acc with
  | idle => exact hidle fun hs => hs.1 (h.be_zero fun _ _ _ h => by cases h)
  | load op a => exact hidle fun hs => hs.1 (h.be_zero fun _ _ _ h => by cases h)
  | store op a v =>
    have ha : x.memAddr = a := h.2.2.2.2.1
    by_cases hm : Bus.InMmio p a
    · have hlow := h.store_low
      have hwe : Mmio.we p ⟨x.memAddr,x.dmemWdata,x.dmemBe⟩ = true :=
        (Bus.we_iff _).mpr ⟨h.stores,ha ▸ hm⟩
      have hbit : x.dmemWdata.getLsbD 2 = v.getLsbD 2 := by
        have hb := congrArg (fun b => b.getLsbD 2) hlow
        simpa using hb
      have hnib : x.dmemWdata.extractLsb' 0 4 = v.extractLsb' 0 4 := by
        have hb := congrArg (fun b => b.extractLsb' 0 4) hlow
        simpa only [Bits.extract_extract _ 0 8 0 4 (by omega)] using hb
      have hsel : ∀ k < 16, (Mmio.sel ⟨x.memAddr,x.dmemWdata,x.dmemBe⟩ == BitVec.ofNat 4 k) =
          (a.toNat % 64/4 == k) := fun k hk => ha ▸ sel_beq _ hk
      have h0 : (Mmio.sel ⟨x.memAddr,x.dmemWdata,x.dmemBe⟩ == Mmio.rUartTx) = _ :=
        hsel 0 (by omega)
      have h1 : (Mmio.sel ⟨x.memAddr,x.dmemWdata,x.dmemBe⟩ == Mmio.rUartStat) = _ :=
        hsel 1 (by omega)
      have h2 : (Mmio.sel ⟨x.memAddr,x.dmemWdata,x.dmemBe⟩ == Mmio.rUartRx) = _ :=
        hsel 2 (by omega)
      have h3 : (Mmio.sel ⟨x.memAddr,x.dmemWdata,x.dmemBe⟩ == Mmio.rGpioOut) = _ :=
        hsel 3 (by omega)
      rw [Mmio.devicesNext,Access.toDevice,if_pos hm,Mmio.Devices.stored,hwe,h0,h1,h2,h3]
      simp only [Bool.true_and,Option.map_some,Option.getD_some,Option.bind_some,hlow,hbit,hnib]
      by_cases h : a.toNat % 64/4 = 3
      · rw [if_pos (beq_iff_eq.mpr h),if_pos h]
        rfl
      · rw [if_neg (mt beq_iff_eq.mp h),if_neg h]
        rfl
    · rw [Access.toDevice,if_neg hm]
      exact hidle fun hs => hm (ha ▸ hs.2)

theorem Performs.toRam_of (h : Performs x acc) (hm : Bus.InRam p x.memAddr) :
    acc.toRam p = acc := by
  cases acc with
  | idle => rfl
  | load op a => rfl
  | store op a v => exact if_pos (show Bus.InRam p a from h.2.2.2.2.1 ▸ hm)

theorem Performs.toRam_not (h : Performs x acc) (hm : ¬Bus.InRam p x.memAddr) {aw : Nat}
    (j : BitVec (aw+2)) : (acc.toRam p).stored p.ramBase j = none := by
  cases acc with
  | idle => rfl
  | load op a => rfl
  | store op a v =>
    rw [Access.toRam,if_neg (show ¬Bus.InRam p a from h.2.2.2.2.1 ▸ hm)]
    rfl

theorem Performs.ram (hb : p.ramBase.toNat % 4 = 0) (h : Performs x acc) {aw : Nat} (r : Ram aw)
    (fetch : Word) (j : BitVec (aw+2)) :
    byteAt (r.next p.ramBase fetch x.memAddr x.dmemWdata
        (Mmio.ramBe p ⟨x.memAddr,x.dmemWdata,x.dmemBe⟩)).mem j =
      ((acc.toRam p).stored p.ramBase j).getD (byteAt r.mem j) := by
  by_cases hm : Bus.InRam p x.memAddr
  · rw [Mmio.ramBe,if_pos ((Bus.isRam_iff _).mpr hm),h.toRam_of hm]
    exact DataPort.byteAt_next hb r (i := ⟨x,fetch⟩) h j
  · rw [Bus.ramBe_of_not fun hs => hm hs.2,h.toRam_not hm]
    exact congrArg (byteAt · j) (Ram.store_none r.mem _ _)

theorem portWord_region (f : Word → BitVec 8) (dev a : Word) :
    portWord (fun b => if Bus.InRam p b then f b else dev.extractLsb' (8*(b.toNat % 4)) 8) a =
      if Bus.InRam p a then portWord f a else dev := by
  have hbase := base_toNat a
  refine word_ext fun k hk => ?_
  have hbyte : ∀ g : Word → BitVec 8, (portWord g a).extractLsb' (8*k) 8 =
      g (a.extractLsb' 2 30 ++ (0 : BitVec 2)+BitVec.ofNat 32 k) := by
    intro g
    rw [portWord_base]
    exact portWord_byte g _ (by omega) hk
  have hadd : (a.extractLsb' 2 30 ++ (0 : BitVec 2)+BitVec.ofNat 32 k).toNat = 4*(a.toNat/4)+k := by
    have hlt := a.isLt
    rw [BitVec.toNat_add,BitVec.toNat_ofNat,hbase]
    omega
  have hreg : Bus.InRam p (a.extractLsb' 2 30 ++ (0 : BitVec 2)+BitVec.ofNat 32 k) ↔
      Bus.InRam p a := by
    rw [Bus.InRam,Bus.InRam,hadd]
    omega
  rw [hbyte]
  by_cases hm : Bus.InRam p a
  · rw [if_pos (hreg.mpr hm),if_pos hm,hbyte]
  · rw [if_neg (mt hreg.mp hm),if_neg hm,hadd,show (4*(a.toNat/4)+k) % 4 = k by omega]

end access

theorem fetch_word {aw : Nat} {base : Word} {m : Machine aw} {mem : BitVec aw → Word}
    (hb : base.toNat % 4 = 0) (hp : Aligned m.pc) (hm : m.mem = byteAt mem) :
    m.fetch base = mem (Ram.wordAddr base m.pc) := by
  rw [word_eq_portWord hb mem m.pc,portWord,Ref.concat_extract hp,← hm]
  rfl

/-! ### Runs -/

namespace SocTop

section run

variable {aw : Nat} (p : Params) (w : Predicted.PowerUp) (ram : Ram aw) (x : Nat → In)

abbrev core (t : Nat) : Core.State := Core.run p.ramBase (ports p w ram x) t

def arch (t : Nat) : Machine aw where
  toHart := Core.hart p.ramBase (ports p w ram x) t
  mem := byteAt (run p w ram x t).bus.ram.mem

def devices (t : Nat) : Mmio.Devices p.toParams := (run p w ram x t).bus.mmio.toDevices

def pinsAt (t : Nat) : Mmio.Pins := pins (run p w ram x t) (x t)

def inputAt (t : Nat) : SocIn where
  vol := Core.volatile p.ramBase (ports p w ram x) t
  dev := Bus.readValue (devices p w ram x t) (pinsAt p w ram x t) (Core.dmemAddr (core p w ram x t))

def inputs (t : Nat) : List SocIn :=
  Clocked.events (fun u => if exDone (core p w ram x u) then some (inputAt p w ram x u) else none) t

/-- The machine of the specification after the same instructions. -/
def software (t : Nat) : Machine aw :=
  (Machine.reset p.ramBase (byteAt ram.mem)).socRun p.toParams (inputs p w ram x t)

/-- No store changes a word that is fetched after it. -/
def NoFetchedStore : Prop := ∀ t l, l <+: inputs p w ram x t →
  ({software p w ram x t with
    mem := ((Machine.reset p.ramBase (byteAt ram.mem)).socRun p.toParams l).mem} :
      Machine aw).fetch p.ramBase = (software p w ram x t).fetch p.ramBase

variable {p w ram x}

theorem access_eq (t : Nat) : access (run p w ram x t) =
    ⟨(Core.ex (core p w ram x t)).memAddr,(Core.ex (core p w ram x t)).dmemWdata,
      (Core.ex (core p w ram x t)).dmemBe⟩ := by
  rw [core,← run_core]
  rfl

theorem devices_succ (t : Nat) : devices p w ram x (t+1) = Mmio.devicesNext (devices p w ram x t)
    (pinsAt p w ram x t) (access (run p w ram x t)) := rfl

theorem imemRdata_succ (t : Nat) : (ports p w ram x (t+1)).imemRdata =
    (run p w ram x t).bus.ram.mem (Ram.wordAddr p.ramBase (core p w ram x t).pcQ) := by
  rw [core,← run_core]
  rfl

variable (p w ram x) in
theorem mem_succ (t : Nat) : ∃ fetch, (run p w ram x (t+1)).bus.ram.mem =
    ((run p w ram x t).bus.ram.next p.ramBase fetch (access (run p w ram x t)).addr
      (access (run p w ram x t)).wdata
      (Mmio.ramBe p.toParams (access (run p w ram x t)))).mem :=
  ⟨_,rfl⟩

theorem dmemRdata_succ (hb : p.ramBase.toNat % 4 = 0) (t : Nat) :
    (ports p w ram x (t+1)).dmemRdata =
      portWord ((arch p w ram x t).socView p.toParams (inputAt p w ram x t).dev).mem
        (Core.dmemAddr (core p w ram x t)) := by
  have haddr : (access (run p w ram x t)).addr = Core.dmemAddr (core p w ram x t) := by
    rw [access_eq]
    rfl
  have hr := Bus.rdata_next (run p w ram x t).bus (busIn (run p w ram x t) (x t))
  refine (show _ = _ from hr).trans ?_
  rw [Machine.socView,portWord_region]
  change (if Mmio.isRam _ (access (run p w ram x t)) = true then _ else
    ((Bus.registerAt (access (run p w ram x t)).addr).map _).getD 0) = _
  by_cases hm : Bus.InRam p.toParams (Core.dmemAddr (core p w ram x t))
  · rw [if_pos ((Bus.isRam_iff _).mpr (haddr ▸ hm)),if_pos hm]
    change (run p w ram x t).bus.ram.mem (Ram.wordAddr _ (access (run p w ram x t)).addr) = _
    rw [haddr,word_eq_portWord hb (run p w ram x t).bus.ram.mem]
    rfl
  · rw [if_neg (mt (Bus.isRam_iff _).mp (haddr ▸ hm)),if_neg hm,haddr]
    rfl

theorem arch_idle {t : Nat} (hn : exDone (core p w ram x t) = false) :
    arch p w ram x (t+1) = arch p w ram x t ∧
      Core.commit (core p w ram x (t+2)) = none ∧
      devices p w ram x (t+1) = (devices p w ram x t).stored (pinsAt p w ram x t) none := by
  obtain ⟨hh,hbe,hc⟩ := Core.hart_idle hn
  have hbe' : (access (run p w ram x t)).be = 0 := by
    rw [access_eq]
    exact hbe
  have hns : ∀ a, ¬(Bus.Stores (access (run p w ram x t)) ∧ a) := fun a hs => hs.1 hbe'
  refine ⟨?_,hc,?_⟩
  · obtain ⟨fetch,hm⟩ := mem_succ p w ram x t
    rw [arch,arch,hh,hm,Bus.ramBe_of_not (hns _),Ram.next,Ram.store_none]
  · rw [devices_succ,Bus.devices_of_not (hns _)]
    rfl

theorem arch_done (hb : p.ramBase.toNat % 4 = 0) {t : Nat} (hd : exDone (core p w ram x t) = true)
    (hi : (core p w ram x t).idExQ.insn = (arch p w ram x t).fetch p.ramBase) :
    let m := arch p w ram x t
    let i := inputAt p w ram x t
    arch p w ram x (t+1) = m.socStep p.toParams i ∧
      Core.commit (core p w ram x (t+2)) = (m.socEvent p.toParams i).commit ∧
      devices p w ram x (t+1) = (devices p w ram x t).stored (pinsAt p w ram x t)
        ((m.socAccess p.toParams i).toDevice p.toParams) := by
  let m := arch p w ram x t
  let i := inputAt p w ram x t
  have hv : (⟨(core p w ram x t).idExQ.insn,(m.socView p.toParams i.dev).mem⟩ : Hart.View) =
      m.socView p.toParams i.dev := by
    rw [hi]
    rfl
  have hl : Core.LoadReads p.ramBase (ports p w ram x) t (m.socView p.toParams i.dev).mem :=
    fun _ => dmemRdata_succ hb t
  have hstep := Core.hart_done hd hl
  have hacc := Core.hart_access hd (m.socView p.toParams i.dev).mem
  have hev := (Core.hart_event hd hl).1
  rw [hv] at hstep hacc hev
  have hacc' : Performs (Core.ex (core p w ram x t)) (m.socAccess p.toParams i) := hacc
  refine ⟨?_,hev,?_⟩
  · obtain ⟨fetch,hm⟩ := mem_succ p w ram x t
    have hmem : byteAt (run p w ram x (t+1)).bus.ram.mem =
        m.memNext p.ramBase ((m.socAccess p.toParams i).toRam p.toParams) := by
      funext j
      rw [hm,access_eq]
      exact hacc'.ram hb _ fetch j
    exact congrArg₂ (fun h f => Machine.mk h f) hstep hmem
  · rw [devices_succ,access_eq]
    exact hacc'.devices _ _

theorem inputs_done {t : Nat} (hd : exDone (core p w ram x t) = true) :
    inputs p w ram x (t+1) = inputs p w ram x t ++ [inputAt p w ram x t] :=
  Clocked.events_succ_some (if_pos hd)

theorem inputs_wait {t : Nat} (hd : exDone (core p w ram x t) = false) :
    inputs p w ram x (t+1) = inputs p w ram x t :=
  Clocked.events_succ_none (if_neg (by simp [hd]))

theorem software_done {t : Nat} (hd : exDone (core p w ram x t) = true) :
    software p w ram x (t+1) =
      (software p w ram x t).socStep p.toParams (inputAt p w ram x t) := by
  rw [software,inputs_done hd,Machine.socRun,List.foldl_append]
  rfl

theorem software_wait {t : Nat} (hd : exDone (core p w ram x t) = false) :
    software p w ram x (t+1) = software p w ram x t := by
  rw [software,inputs_wait hd]
  rfl

theorem insn_eq (hb : p.ramBase.toNat % 4 = 0) (hns : NoFetchedStore p w ram x) {t : Nat}
    (h : ∀ u ≤ t, arch p w ram x u = software p w ram x u)
    (hd : exDone (core p w ram x t) = true) :
    (core p w ram x t).idExQ.insn = (arch p w ram x t).fetch p.ramBase := by
  have hv := (Core.exDone_valid hd).1
  have ha : Aligned p.ramBase := (aligned_iff_toNat _).mpr hb
  have hp : Aligned (arch p w ram x t).pc := Predicted.archPc_aligned ha _ t
  obtain ⟨u,hu,hpc,hi⟩ := (Core.run_given p.ramBase (ports p w ram x) t).ex hv
  have hpc' : (core p w ram x u).pcQ = (arch p w ram x t).pc :=
    hpc.trans ((Core.run_flow p.ramBase _ t).exPc hv)
  have hf := hns t _ (Clocked.events_prefix _ (Nat.le_of_lt hu))
  rw [← h t (Nat.le_refl t)] at hf
  rw [← hf]
  refine hi.symm.trans ((imemRdata_succ u).trans ?_)
  rw [hpc']
  have hmem : (software p w ram x u).mem = byteAt (run p w ram x u).bus.ram.mem := by
    rw [← h u (Nat.le_of_lt hu)]
    rfl
  exact (fetch_word (m := {arch p w ram x t with mem := (software p w ram x u).mem}) hb hp
    hmem).symm

theorem arch_software (hb : p.ramBase.toNat % 4 = 0) (hns : NoFetchedStore p w ram x) (t : Nat) :
    arch p w ram x t = software p w ram x t := by
  induction t using Nat.strong_induction_on with
  | _ t ih =>
    cases t with
    | zero =>
      refine congrArg (fun h => Machine.mk h (byteAt ram.mem)) ?_
      exact (Core.implements_hart p.ramBase (ports p w ram x)).1
    | succ t =>
      have h := ih t (Nat.lt_succ_self t)
      cases hd : exDone (core p w ram x t) with
      | false => rw [(arch_idle hd).1,software_wait hd,h]
      | true =>
        have hi := insn_eq hb hns (fun u hu => ih u (Nat.lt_succ_of_le hu)) hd
        rw [(arch_done hb hd hi).1,software_done hd,h]

/-- The system as its software sees it: every instruction is a step of the specification
on the memory, on a register's value where it loads from the peripherals, and the
peripherals take exactly its stores, each in the cycle in which it finishes. -/
theorem implements_soc (hb : p.ramBase.toNat % 4 = 0) (hns : NoFetchedStore p w ram x) (t : Nat) :
    let m := software p w ram x t
    let i := inputAt p w ram x t
    arch p w ram x t = m ∧
      Core.commit (core p w ram x (t+2)) =
        (if exDone (core p w ram x t) then (m.socEvent p.toParams i).commit else none) ∧
      devices p w ram x (t+1) = (devices p w ram x t).stored (pinsAt p w ram x t)
        (if exDone (core p w ram x t) then (m.socAccess p.toParams i).toDevice p.toParams
          else none) := by
  have h := arch_software hb hns t
  intro m i
  cases hd : exDone (core p w ram x t) with
  | false => exact ⟨h,(arch_idle hd).2⟩
  | true =>
    have hi := insn_eq hb hns (fun u _ => arch_software hb hns u) hd
    have hdone := (arch_done hb hd hi).2
    rw [h] at hdone
    exact ⟨h,hdone⟩

end run

end SocTop

end Rvntt
