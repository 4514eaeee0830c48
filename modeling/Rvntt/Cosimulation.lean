import Rvntt.TrapHandler
set_option autoImplicit false

/-!
The core against the machine of the specification by their logs, as the co-simulation
compares them, and what the logs show of traps.
-/

namespace Rvntt

open Core (exDone)

namespace Cosim

theorem spikeFrom_records {handler : Option Nat} {cs : List Core.Commit}
    (hb : ∀ c ∈ cs, BASE ≤ c.pc.toNat) (hw : ∀ c ∈ cs, ∀ w ∈ c.write, w.1 ≠ 0) :
    spikeFrom handler (cs.map record) =
      (cs.map record).takeWhile fun r => handler != some r.pc := by
  induction cs with
  | nil => rfl
  | cons c cs ih =>
    have hz : (record c).writes.filter (fun w => w.1 != 0) = (record c).writes := by
      refine List.filter_eq_self.mpr fun w hm => ?_
      obtain ⟨v,hv,rfl⟩ := List.mem_map.mp hm
      have hne := hw c List.mem_cons_self v (Option.mem_toList.mp hv)
      exact bne_iff_ne.mpr fun h => hne (BitVec.eq_of_toNat_eq h)
    have hlow : ¬(record c).pc < BASE := Nat.not_lt.mpr (hb c List.mem_cons_self)
    rw [List.map_cons,spikeFrom,if_neg hlow,hz,List.takeWhile_cons,
      ih (fun d hd => hb d (List.mem_cons_of_mem _ hd))
        fun d hd => hw d (List.mem_cons_of_mem _ hd)]
    by_cases hs : handler = some (record c).pc
    · rw [if_pos hs,if_neg (by simp [hs])]
    · rw [if_neg hs,if_pos (by simpa using hs)]

theorem spikeFrom_boot {handler : Option Nat} {boot : List Record} (h : ∀ r ∈ boot, r.pc < BASE)
    (l : List Record) : spikeFrom handler (boot ++ l) = spikeFrom handler l := by
  induction boot with
  | nil => rfl
  | cons r boot ih =>
    rw [List.cons_append,spikeFrom,if_pos (h r List.mem_cons_self)]
    exact ih fun s hs => h s (List.mem_cons_of_mem _ hs)

end Cosim

theorem takeWhile_prefix {α : Type} {p : α → Bool} {a b : List α} (h : a <+: b)
    (hs : ∃ x ∈ a, p x = false) : a.takeWhile p = b.takeWhile p := by
  obtain ⟨c,rfl⟩ := h
  obtain ⟨x,hx,hp⟩ := hs
  have hne : a.takeWhile p ≠ a := by
    intro h
    rw [List.takeWhile_eq_self_iff] at h
    exact Bool.false_ne_true (hp.symm.trans (h x hx))
  have hlen : ¬(a.takeWhile p).length = a.length := fun h =>
    hne ((List.takeWhile_prefix p).eq_of_length h)
  rw [List.takeWhile_append,if_neg hlen]

namespace SimTop

section run

variable {aw : Nat} {base resetPc : Word} {ram : Ram aw} {x : Nat → In}

variable (base resetPc ram x) in
theorem exists_finish (k : Nat) : ∃ t, exDone (core base resetPc ram x t) = true ∧
    finishedBy base resetPc ram x t = k := by
  have hinf : (Set.ofPred fun u => exDone (core base resetPc ram x u) = true).Infinite :=
    Core.finished_infinite resetPc (ports base resetPc ram x)
  exact ⟨_,Nat.nth_mem_of_infinite hinf k,Nat.count_nth_of_infinite hinf k⟩

variable (base resetPc ram x) in
/-- The log the monitor has written, two cycles after EX. -/
def log (t : Nat) : List Char :=
  Trace.file (Clocked.events (commitAt base resetPc ram x) (t+2))

/-- The co-simulation passes. However Spike boots and whatever it adds to each line, its log
of the program is found equal to the monitor's when both have seen as many instructions or
both have got as far as the trap handler. -/
theorem cosim_passes (hb : base.toNat % 4 = 0) (hr : Aligned resetPc)
    (hns : NoFetchedStore base resetPc ram x)
    (hq : ∀ t, (arch base resetPc ram x t).Unwatched base)
    (hlow : ∀ t c, commitAt base resetPc ram x t = some c → Cosim.BASE ≤ c.pc.toNat)
    {vol : Nat → Isa.Volatile} (hvol : ∀ k, (vol k).Ok)
    {boot : List (Cosim.Record × List Line)} (hboot : ∀ e ∈ boot, e.1.pc < Cosim.BASE)
    {prog : List (Core.Commit × List Line)} {n t : Nat} (hprog : prog.map Prod.fst =
      Isa.commits base (.reset resetPc (byteAt ram.mem)) vol n)
    (hne : boot ≠ [] ∨ prog ≠ []) (hboots : ∀ e ∈ boot, ∀ t ∈ e.2, Cosim.Annotation t)
    (hprogs : ∀ e ∈ prog, ∀ t ∈ e.2, Cosim.Annotation t) {handler : Option Nat}
    (hn : n = finishedBy base resetPc ram x t ∨
      ∃ c ∈ Isa.commits base (.reset resetPc (byteAt ram.mem)) vol
        (min n (finishedBy base resetPc ram x t)), handler = some c.pc.toNat)
    (context : Int) :
    let spike := (boot.map fun e => Cosim.spikeLine e.1 e.2) ++
      prog.map fun e => Cosim.spikeLine (Cosim.record e.1) e.2
    ∃ sp rt, Cosim.spikeRecords (Cosim.spikeTrace spike) handler = some sp ∧
      Cosim.rtlRecords (log base resetPc ram x t) handler = .ok rt ∧
      Cosim.diff sp rt context = none := by
  obtain ⟨v,hv⟩ := exists_implements hb hr hns
  let m := Isa.Machine.reset resetPc (byteAt ram.mem)
  have hun : ∀ k, (Isa.run base m v k).Unwatched base := by
    intro k
    obtain ⟨u,_,rfl⟩ := exists_finish base resetPc ram x k
    exact hv.arch u ▸ hq u
  have hcs : ∀ k, Isa.commits base m vol k = Isa.commits base m v k := fun k =>
    (Isa.Machine.commits_unwatched hv.ok hvol hun k).symm
  have hbase : ∀ k, ∀ c ∈ Isa.commits base m v k, Cosim.BASE ≤ c.pc.toNat := by
    intro k c hc
    obtain ⟨u,_,rfl⟩ := exists_finish base resetPc ram x k
    rw [← hv.commits u] at hc
    obtain ⟨w,_,hw⟩ := Clocked.mem_events hc
    exact hlow w c hw
  have hnz : ∀ k, ∀ c ∈ Isa.commits base m v k, ∀ w ∈ c.write, w.1 ≠ 0 := by
    intro k c hc
    obtain ⟨j,_,hj⟩ := Clocked.mem_events hc
    exact (Isa.Hart.event_commit hj).2
  intro spike
  let cs := Isa.commits base m vol n
  have hcsn : cs = Isa.commits base m v n := hcs n
  have hspike : Cosim.spikeTrace spike = boot.map Prod.fst ++ cs.map Cosim.record := by
    have hp := Cosim.log_lines prog hprogs
    rw [hprog] at hp
    rw [Cosim.spikeTrace,List.filterMap_append,← Cosim.spikeTrace,← Cosim.spikeTrace,
      Cosim.spikeTrace_lines boot hboots,hp]
  have hcut : (cs.map Cosim.record).takeWhile (fun r => handler != some r.pc) =
      ((Isa.commits base m v (finishedBy base resetPc ram x t)).map Cosim.record).takeWhile
        fun r => handler != some r.pc := by
    change ((Isa.commits base m vol n).map Cosim.record).takeWhile _ = _
    rcases hn with rfl | ⟨c,hc,hh⟩
    · rw [hcs]
    · have hend : ∃ r ∈ (Isa.commits base m v (min n (finishedBy base resetPc ram x t))).map
          Cosim.record, (handler != some r.pc) = false :=
        ⟨Cosim.record c,List.mem_map_of_mem (hcs _ ▸ hc),by simp [hh,Cosim.record]⟩
      have hpre : ∀ k, min n (finishedBy base resetPc ram x t) ≤ k →
          (Isa.commits base m v (min n (finishedBy base resetPc ram x t))).map Cosim.record <+:
            (Isa.commits base m v k).map Cosim.record := fun k hk =>
        (Clocked.events_prefix _ hk).map _
      rw [hcs,← takeWhile_prefix (hpre n (Nat.min_le_left _ _)) hend,
        ← takeWhile_prefix (hpre _ (Nat.min_le_right _ _)) hend]
  refine ⟨_,_,?_,?_,Cosim.diff_eq_none_iff.mpr hcut⟩
  · have hnil : boot.map Prod.fst ++ cs.map Cosim.record ≠ [] := by
      rcases hne with hne | hne
      · simp [hne]
      · have hcs : cs ≠ [] := by
          change Isa.commits _ _ _ _ ≠ []
          rw [← hprog]
          exact mt List.map_eq_nil_iff.mp hne
        simp [hcs]
    have hlowboot : ∀ r ∈ boot.map Prod.fst, r.pc < Cosim.BASE := by
      intro r hr
      obtain ⟨e,he,rfl⟩ := List.mem_map.mp hr
      exact hboot e he
    rw [hspike,Cosim.spikeRecords,if_neg hnil,Cosim.spikeFrom_boot hlowboot,hcsn,
      Cosim.spikeFrom_records (hbase n) (hnz n)]
  · rw [log,hv.commits]
    exact Cosim.rtlRecords_file _ _

/-! ### Traps that are stepped over -/

variable (base resetPc ram) in
/-- The program whose traps all go to the handler at `h`. -/
def Handling (h : Word) : Prop := ∀ vol : Nat → Isa.Volatile, (∀ k, (vol k).Ok) →
  Isa.Machine.Installed base (.reset resetPc (byteAt ram.mem)) vol h

variable (base resetPc ram) in
/-- And that enters it by traps only. -/
def Skipping (h : Word) : Prop := ∀ vol : Nat → Isa.Volatile, (∀ k, (vol k).Ok) →
  Isa.Machine.Skips base (.reset resetPc (byteAt ram.mem)) vol h

/-- The log shows the addresses of all instructions that have trapped, in order, but for one
whose handler has not started. -/
theorem traps_logged (hb : base.toNat % 4 = 0) (hr : Aligned resetPc)
    (hns : NoFetchedStore base resetPc ram x) {h : Word} (hs : Skipping base resetPc ram h)
    (t : Nat) : ∃ rs l, Cosim.rtlRecords (log base resetPc ram x t) none = .ok rs ∧
      Cosim.skippedTraps (some h.toNat) rs = some l ∧
      if (arch base resetPc ram x t).pc = h then
        ∃ a, (Clocked.events (trapAt base resetPc ram x) t).map BitVec.toNat = l ++ [a]
      else (Clocked.events (trapAt base resetPc ram x) t).map BitVec.toNat = l := by
  obtain ⟨vol,hv⟩ := exists_implements hb hr hns
  let m := Isa.Machine.reset resetPc (byteAt ram.mem)
  have hs := hs vol hv.ok
  have hw : m.Wf := Isa.Hart.wf_reset hr
  rw [log,hv.commits,hv.traps,hv.arch,Cosim.rtlRecords_file]
  refine ⟨_,_,rfl,rfl,?_⟩
  have hall : ∀ l : List Cosim.Record,
      l.takeWhile (fun r => (none : Option Nat) != some r.pc) = l :=
    fun l => List.takeWhile_eq_self_iff.mpr fun _ _ => rfl
  rw [hall]
  cases finishedBy base resetPc ram x t with
  | zero =>
    have hpc : (Isa.run base m vol 0).pc ≠ h := by
      intro hp
      obtain ⟨k,_,hk,_⟩ := hs.entry 0 hp
      cases hk
    rw [if_neg hpc]
    rfl
  | succ n =>
    have hsk := Option.some.inj (hs.skipped hw n)
    rw [hsk,Isa.traps,Clocked.events_succ,List.map_append]
    split
    · rename_i hp
      obtain ⟨k,a,hk,ha⟩ := hs.entry (n+1) hp
      obtain rfl : n = k := by omega
      exact ⟨a.toNat,by rw [ha]; rfl⟩
    · rename_i hp
      cases ht : (Isa.eventAt base m vol n).trap with
      | none => exact List.append_nil _
      | some a =>
        obtain ⟨_,_,_,hrun,_⟩ := hs.enter hw ht
        exact absurd (by rw [hrun]) hp

/-- When four instructions more have finished behind one that trapped, the program goes on
behind it, with only `t0` and the CSRs of the trap changed and interrupts enabled as before. -/
theorem traps_skipped (hb : base.toNat % 4 = 0) (hr : Aligned resetPc)
    (hns : NoFetchedStore base resetPc ram x) {h : Word} (hs : Handling base resetPc ram h)
    {t u : Nat} {a : Word} (ht : trapAt base resetPc ram x t = some a)
    (hu : finishedBy base resetPc ram x u = finishedBy base resetPc ram x t+5) :
    let m := arch base resetPc ram x t
    let m' := arch base resetPc ram x u
    m'.pc = a+4 ∧ m'.regs = Isa.Machine.setT0 m.regs (a+4) ∧ m'.mem = m.mem ∧
      m'.csr .mstatus = Isa.Csrs.mstatus ((m.csr .mstatus).getLsbD 3) true ∧
      ∀ r ∉ [Csr.Reg.mstatus,.mepc,.mcause,.mtval], m'.csr r = m.csr r := by
  obtain ⟨vol,hv⟩ := exists_implements hb hr hns
  have hd : exDone (core base resetPc ram x t) = true := by
    by_contra hn
    simp [trapAt,hn] at ht
  rw [hv.trapAt t hd] at ht
  rw [hv.arch t,hv.arch u,hu]
  exact (hs vol hv.ok).returns (Isa.Hart.wf_reset hr) ht

end run

/-! A program that sets its vector and traps for ever: `auipc t0,0`, `addi t0,t0,24`,
`csrw mtvec,t0`, `ecall` and a jump back to it, and the handler. -/

def probe : Ram 4 where
  mem i := [0x00000297,0x01828293,0x30529073,0x00000073,0xFFDFF06F,0,0x341022F3,0x00428293,
    0x34129073,0x30200073].getD i.toNat 0
  rdataA := 0
  rdataB := 0

/-- Where the program can be, and what it has set up by then. -/
inductive Probing (m : Isa.Machine 4) : Prop where
  | auipc (h : m.pc = 0x80000000)
  | addi (h : m.pc = 0x80000004) (ht : m.regs 5 = 0x80000000)
  | csrw (h : m.pc = 0x80000008) (ht : m.regs 5 = 0x80000018)
  | ecall (h : m.pc = 0x8000000C) (hv : m.csr .mtvec = 0x80000018)
  | jal (h : m.pc = 0x80000010) (hv : m.csr .mtvec = 0x80000018)
  | enter (h : m.pc = 0x80000018) (hv : m.csr .mtvec = 0x80000018) (he : m.csr .mepc = 0x8000000C)
  | bump (h : m.pc = 0x8000001C) (hv : m.csr .mtvec = 0x80000018) (ht : m.regs 5 = 0x8000000C)
  | write (h : m.pc = 0x80000020) (hv : m.csr .mtvec = 0x80000018) (ht : m.regs 5 = 0x80000010)
  | leave (h : m.pc = 0x80000024) (hv : m.csr .mtvec = 0x80000018) (he : m.csr .mepc = 0x80000010)

abbrev probeMem : BitVec (4+2) → BitVec 8 := byteAt probe.mem

def probeNext (a : Word) : Word :=
  if a = 0x8000000C then 0x80000018
  else if a = 0x80000010 then 0x8000000C
  else if a = 0x80000024 then 0x80000010 else a+4

structure ProbeStep (m m' : Isa.Machine 4) (ev : Isa.Event) : Prop where
  mem : m'.mem = probeMem
  place : Probing m'
  next : m'.pc = probeNext m.pc
  trap : ev.trap = if m.pc = 0x8000000C then some m.pc else none

theorem put_mtvec {c : Isa.Csrs} {v : Word} (h : Aligned v) :
    c.put Csr.csrMtvec v .mtvec = v := by
  rw [Isa.Csrs.put,if_pos (by rfl)]
  exact (Csr.aligned_warl v).symm.trans (Ref.concat_extract h)

section probe

variable {m : Isa.Machine 4}

theorem probe_fetch (hm : m.mem = probeMem) {a w : Word} (hp : m.pc = a)
    (hw : Isa.Machine.wordAt 0x80000000 probeMem a = w) : m.fetch 0x80000000 = w := by
  rw [Isa.Machine.fetch_eq,hm,hp,hw]

theorem ProbeStep.retired {m' : Isa.Machine 4} {c : Core.Commit} {a : Word} (hm : m'.mem = probeMem)
    (hp : Probing m') (h : m.pc = a) (hn : m'.pc = probeNext a) (hne : a ≠ 0x8000000C) :
    ProbeStep m m' (.retired c) :=
  ⟨hm,hp,h ▸ hn,(if_neg (h ▸ hne)).symm⟩

theorem probe_step (vol : Isa.Volatile) (hm : m.mem = probeMem) (hp : Probing m) :
    ProbeStep m (m.step 0x80000000 vol) (m.event 0x80000000 vol) := by
  cases hp with
  | auipc h =>
    have hf := probe_fetch hm h (w := (Isa.Instr.auipc 5 0).encode) (by decide)
    obtain ⟨hs,he⟩ := Isa.Machine.step_exec vol hf (fun _ => rfl) rfl rfl
    have hpc : m.pc+4 = 0x80000004 := by rw [h]; rfl
    rw [hs,he]
    refine .retired hm (.addi hpc ?_) h hpc (by decide)
    change m.regsNext (some (5,m.pc+0)) 5 = _
    rw [Isa.Machine.regsNext_t0,h]
    rfl
  | addi h ht =>
    have hf := probe_fetch hm h (w := (Isa.Instr.opImm .addi 5 5 24).encode) (by decide)
    obtain ⟨hs,he⟩ := Isa.Machine.step_exec vol hf (fun _ => rfl) rfl rfl
    have hpc : m.pc+4 = 0x80000008 := by rw [h]; rfl
    have hrs1 : (m.env (m.view 0x80000000)).rs1 = 0x80000000 := by
      change m.regs (rs1Field (m.fetch 0x80000000)) = _
      rw [hf]
      exact ht
    rw [hs,he]
    refine .retired hm (.csrw hpc ?_) h hpc (by decide)
    change m.regsNext (some (5,(m.env (m.view 0x80000000)).rs1+24)) 5 = _
    rw [Isa.Machine.regsNext_t0,hrs1]
    rfl
  | csrw h ht =>
    have hf := probe_fetch hm h (w := (Isa.Instr.csr .csrrw Csr.csrMtvec 0 5).encode) (by decide)
    have hl : ¬Isa.CsrIllegal ⟨Csr.csrMtvec,.rw,m.regs 5,true⟩ := by
      rw [ht]
      decide
    obtain ⟨hs,he⟩ := Isa.Machine.step_csr vol hf rfl hl
    have hpc : m.pc+4 = 0x8000000C := by rw [h]; rfl
    rw [hs,he]
    refine .retired hm (.ecall hpc ?_) h hpc (by decide)
    change m.csr.put Csr.csrMtvec (m.regs 5) .mtvec = _
    rw [ht]
    exact put_mtvec (by decide)
  | ecall h hv =>
    have hf := probe_fetch hm h (w := Isa.Instr.ecall.encode) (by decide)
    have hout : m.outcome vol (m.view 0x80000000) =
        {trap := some (11,0), next := m.csr .mtvec} := by
      have hi : Isa.Instr.decode (m.fetch 0x80000000) = some .ecall := by
        rw [hf,Isa.Instr.decode_encode]
      rw [Isa.Hart.outcome_exec (w := m.view _) vol hi rfl]
      rfl
    obtain ⟨hs,he⟩ := Isa.Machine.step_trap (congrArg (·.trap) hout)
    rw [hs,he,hout]
    refine ⟨hm,.enter hv hv ?_,?_,(if_pos h).symm⟩
    · change m.pc &&& _ = _
      rw [h]
      decide
    · rw [h]
      exact hv
  | jal h hv =>
    have hf := probe_fetch hm h (w := (Isa.Instr.jal 0 0xFFFFE).encode) (by decide)
    have hpc : m.pc+Isa.offset (0xFFFFE : BitVec 20) = 0x8000000C := by rw [h]; decide
    obtain ⟨hs,he⟩ := Isa.Machine.step_exec (m := m)
      (o := {dest := some (0,m.pc+4), next := 0x8000000C}) vol hf (fun _ => rfl) (by
        change some (Isa.transfer _ (m.pc+Isa.offset (0xFFFFE : BitVec 20)) _) = _
        rw [hpc]
        rfl) rfl
    rw [hs,he]
    exact .retired hm (.ecall rfl hv) h rfl (by decide)
  | enter h hv he =>
    have hf := probe_fetch hm h (w := (Isa.Instr.csr .csrrs Csr.csrMepc 5 0).encode) (by decide)
    have hpc : m.pc+4 = 0x8000001C := by rw [h]; rfl
    obtain ⟨hs,hev⟩ := Isa.Machine.step_csrr hf vol
    rw [hs,hev]
    exact .retired hm (.bump hpc hv he) h hpc (by decide)
  | bump h hv ht =>
    have hf := probe_fetch hm h (w := (Isa.Instr.opImm .addi 5 5 4).encode) (by decide)
    have hpc : m.pc+4 = 0x80000020 := by rw [h]; rfl
    obtain ⟨_,hev⟩ := Isa.Machine.step_exec vol hf (fun _ => rfl) rfl rfl
    rw [Isa.Machine.step_addi hf,hev]
    refine .retired hm (.write hpc hv ?_) h hpc (by decide)
    change m.regs 5+4 = _
    rw [ht]
    rfl
  | write h hv ht =>
    have hf := probe_fetch hm h (w := (Isa.Instr.csr .csrrw Csr.csrMepc 0 5).encode) (by decide)
    have hpc : m.pc+4 = 0x80000024 := by rw [h]; rfl
    obtain ⟨_,hev⟩ := Isa.Machine.step_csr vol hf rfl (Isa.Machine.legal_write (m.regs 5))
    rw [Isa.Machine.step_csrw hf,hev,ht]
    have hput := Isa.Machine.put_mepc (c := m.csr) (v := 0x80000010) (by decide)
    exact .retired hm (.leave hpc (((hput .mtvec).trans (if_neg (by decide))).trans hv)
      ((hput .mepc).trans (if_pos rfl))) h hpc (by decide)
  | leave h hv he =>
    have hf := probe_fetch hm h (w := Isa.Instr.mret.encode) (by decide)
    obtain ⟨_,hev⟩ := Isa.Machine.step_exec vol hf (fun _ => rfl) rfl rfl
    rw [Isa.Machine.step_mret hf,hev]
    exact .retired hm (.jal he hv) h he (by decide)

theorem probe_run (vol : Nat → Isa.Volatile) (n : Nat) :
    let m := Isa.run 0x80000000 (.reset 0x80000000 probeMem) vol n
    m.mem = probeMem ∧ Probing m :=
  (Isa.machine 0x80000000 (.reset 0x80000000 probeMem)).invariant
    (fun m => m.mem = probeMem ∧ Probing m) ⟨rfl,.auipc rfl⟩
    (fun _ v h => ⟨(probe_step v h.1 h.2).mem,(probe_step v h.1 h.2).place⟩) vol n

def places : List Word :=
  [0x80000000,0x80000004,0x80000008,0x8000000C,0x80000010,0x80000018,0x8000001C,0x80000020,
    0x80000024]

theorem Probing.pc_mem (h : Probing m) : m.pc ∈ places := by
  cases h <;> simp [*,places]

theorem Probing.vector (h : Probing m) (hp : m.pc = 0x8000000C) : m.csr .mtvec = 0x80000018 := by
  have hne : ∀ a : Word, a ≠ 0x8000000C → m.pc ≠ a := fun a ha h => ha (h.symm.trans hp)
  cases h with
  | auipc h => exact absurd h (hne _ (by decide))
  | addi h => exact absurd h (hne _ (by decide))
  | csrw h => exact absurd h (hne _ (by decide))
  | _ => assumption

theorem probe_run_step (vol : Nat → Isa.Volatile) (n : Nat) :
    ProbeStep (Isa.run 0x80000000 (.reset 0x80000000 probeMem) vol n)
      (Isa.run 0x80000000 (.reset 0x80000000 probeMem) vol (n+1))
      (Isa.eventAt 0x80000000 (.reset 0x80000000 probeMem) vol n) :=
  probe_step (vol n) (probe_run vol n).1 (probe_run vol n).2

theorem probeNext_handler : (places.all fun a => probeNext a != 0x80000018 || a == 0x8000000C) =
    true := by
  decide

theorem skipping_probe : Skipping 0x80000000 0x80000000 probe 0x80000018 := by
  intro vol _
  refine ⟨⟨fun n => ?_,fun n a ha => ?_⟩,fun n hn => ?_⟩
  · rw [(probe_run vol n).1]
    exact ⟨by decide,by decide,by decide,by decide,trivial⟩
  · have ht := (probe_run_step vol n).trap
    change _ = some a at ha
    rw [ha] at ht
    split at ht
    · rename_i hp
      exact (probe_run vol n).2.vector hp
    · cases ht
  · cases n with
    | zero => exact absurd hn (show (0x80000000 : Word) ≠ 0x80000018 by decide)
    | succ n =>
      have hs := probe_run_step vol n
      have hall := List.all_eq_true.mp probeNext_handler _ (probe_run vol n).2.pc_mem
      rw [Bool.or_eq_true,bne_iff_ne,beq_iff_eq] at hall
      have hp := hall.resolve_left (not_not_intro (hs.next.symm.trans hn))
      exact ⟨n,_,rfl,hs.trap.trans (if_pos hp)⟩

theorem places_ok : (places.all fun a => decide (Aligned a) && decide (Cosim.BASE ≤ a.toNat) &&
    match Isa.Instr.decode (Isa.Machine.wordAt 0x80000000 probeMem a) with
    | some (.csr _ addr _ _) => addr == Csr.csrMtvec || addr == Csr.csrMepc
    | _ => true) = true := by
  decide

theorem Probing.ok (hm : m.mem = probeMem) (h : Probing m) :
    Aligned m.pc ∧ Cosim.BASE ≤ m.pc.toNat ∧ m.Unwatched 0x80000000 := by
  have hall := List.all_eq_true.mp places_ok _ h.pc_mem
  simp only [Bool.and_eq_true,decide_eq_true_eq] at hall
  refine ⟨hall.1.1,hall.1.2,fun op addr rd src hi => ?_⟩
  have hc := hall.2
  rw [Isa.Machine.fetch_eq,hm] at hi
  rw [hi] at hc
  simp only [Bool.or_eq_true,beq_iff_eq] at hc
  rcases hc with rfl | rfl
  · exact .inr (.inr (.inl ⟨.mtvec,rfl⟩))
  · exact .inr (.inr (.inl ⟨.mepc,rfl⟩))

theorem probe_seq (l : List Seq.Env) :
    let s := Seq.run 0x80000000 (Seq.init 0x80000000 probe.mem) l
    (Isa.Machine.of s).mem = probeMem ∧ Probing (.of s) := by
  induction l using List.reverseRecOn with
  | nil => exact ⟨rfl,.auipc rfl⟩
  | append_singleton l e ih =>
    let s := Seq.run 0x80000000 (Seq.init 0x80000000 probe.mem) l
    have hp : Aligned s.pc := (ih.2.ok ih.1).1
    have h := probe_step (Isa.volOf (Seq.exec 0x80000000 s e)) ih.1 ih.2
    rw [Isa.Machine.step_of e (by decide) hp] at h
    rw [Seq.run_concat]
    exact ⟨h.mem,h.place⟩

theorem noFetchedStore_probe (x : Nat → In) : NoFetchedStore 0x80000000 0x80000000 probe x := by
  intro t l _
  have hl := probe_seq l
  have hr := probe_seq (envs 0x80000000 0x80000000 probe x t)
  let s := Seq.run 0x80000000 (Seq.init 0x80000000 probe.mem) l
  let r := reference 0x80000000 0x80000000 probe x t
  have hp : Aligned r.pc := (hr.2.ok hr.1).1
  have hs : (Isa.Machine.of {s with pc := r.pc}).fetch 0x80000000 =
      s.mem (Ram.wordAddr 0x80000000 r.pc) := Isa.Machine.fetch_of (by decide) hp
  refine hs.symm.trans (Eq.trans ?_ (Isa.Machine.fetch_of (s := r) (by decide) hp))
  rw [Isa.Machine.fetch_eq,Isa.Machine.fetch_eq]
  exact congrArg (Isa.Machine.wordAt 0x80000000 · r.pc) (hl.1.trans hr.1.symm)

theorem probe_arch (t : Nat) :
    let m := arch 0x80000000 0x80000000 probe (fun _ => ⟨false,{}⟩) t
    Aligned m.pc ∧ Cosim.BASE ≤ m.pc.toNat ∧ m.Unwatched 0x80000000 := by
  rw [← reference_of (noFetchedStore_probe _)]
  have h := probe_seq (envs 0x80000000 0x80000000 probe (fun _ => ⟨false,{}⟩) t)
  exact h.2.ok h.1

theorem probe_commit (t : Nat) (c : Core.Commit)
    (h : commitAt 0x80000000 0x80000000 probe (fun _ => ⟨false,{}⟩) t = some c) :
    Cosim.BASE ≤ c.pc.toNat := by
  obtain ⟨vol,hv⟩ := exists_implements (by decide) (by decide)
    (noFetchedStore_probe fun _ => ⟨false,{}⟩)
  rw [commitAt_delayed,Clocked.delayed_eq_some] at h
  obtain ⟨u,_,h⟩ := h
  have hd : exDone (core 0x80000000 0x80000000 probe (fun _ => ⟨false,{}⟩) u) = true := by
    by_contra hn
    rw [commitAt_of_not_done hn] at h
    cases h
  rw [hv.commitAt u hd] at h
  rw [(Isa.Hart.event_commit h).1]
  exact hv.arch u ▸ (probe_arch u).2.1

theorem misa_not_zero : ¬Isa.ReadsZero Csr.csrMisa := by
  rintro (h | ⟨b,hb,n,h9,h31,hn⟩)
  · exact absurd h (by decide)
  · have hmisa : Csr.csrMisa.toNat = 0x301 := rfl
    simp only [Csr.numbered,List.mem_cons,List.not_mem_nil,or_false] at hb
    omega

theorem cosim_passes_probe :
    let cs := Isa.commits 0x80000000 (.reset 0x80000000 probeMem) (fun _ addr =>
      if addr = Csr.csrMisa then Csr.misaValue else 0)
        (finishedBy 0x80000000 0x80000000 probe (fun _ => ⟨false,{}⟩) 99)
    let boot : List (Cosim.Record × List Line) := [(⟨0x1000,0x00000297,[(5,0x1000)]⟩,[]),
      (⟨0x100C,0x0182A283,[(5,0x80000000)]⟩,["mem".toList,"0x00001018".toList])]
    let spike := (boot.map fun e => Cosim.spikeLine e.1 e.2) ++
      (cs.zipIdx.map fun e => (e.1,List.replicate (e.2%2) "mem".toList)).map fun e =>
        Cosim.spikeLine (Cosim.record e.1) e.2
    ∃ sp rt, Cosim.spikeRecords (Cosim.spikeTrace spike) (some 0x80000018) = some sp ∧
      Cosim.rtlRecords (log 0x80000000 0x80000000 probe (fun _ => ⟨false,{}⟩) 99)
        (some 0x80000018) = .ok rt ∧ Cosim.diff sp rt 6 = none := by
  have hmem : Cosim.Annotation "mem".toList := ⟨List.all_eq_true.mp rfl,'m',rfl,by decide⟩
  have haddr : Cosim.Annotation "0x00001018".toList :=
    ⟨List.all_eq_true.mp rfl,'0',rfl,by decide⟩
  refine cosim_passes (by decide) (by decide) (noFetchedStore_probe _)
    (fun t => (probe_arch t).2.2) probe_commit
    (fun _ => ⟨rfl,fun addr h => if_neg fun ha : addr = Csr.csrMisa => misa_not_zero (ha ▸ h)⟩)
    (by decide) ((List.map_map ..).trans (List.zipIdx_map_fst _ _)) (.inl (List.cons_ne_nil _ _))
    ?_ ?_ (.inl rfl) 6
  · simpa using ⟨hmem,haddr⟩
  · intro e he t ht
    obtain ⟨c,_,rfl⟩ := List.mem_map.mp he
    rw [List.eq_of_mem_replicate ht]
    exact hmem

theorem traps_logged_probe :
    ∃ rs l, Cosim.rtlRecords (log 0x80000000 0x80000000 probe (fun _ => ⟨false,{}⟩) 99) none =
        .ok rs ∧ Cosim.skippedTraps (some (0x80000018 : Word).toNat) rs = some l ∧
      if (arch 0x80000000 0x80000000 probe (fun _ => ⟨false,{}⟩) 99).pc = 0x80000018 then
        ∃ a, (Clocked.events (trapAt 0x80000000 0x80000000 probe fun _ => ⟨false,{}⟩) 99).map
          BitVec.toNat = l ++ [a]
      else (Clocked.events (trapAt 0x80000000 0x80000000 probe fun _ => ⟨false,{}⟩) 99).map
        BitVec.toNat = l :=
  traps_logged (by decide) (by decide) (noFetchedStore_probe _) skipping_probe 99

theorem traps_skipped_probe : ∃ t u,
    let m := arch 0x80000000 0x80000000 probe (fun _ => ⟨false,{}⟩) t
    let m' := arch 0x80000000 0x80000000 probe (fun _ => ⟨false,{}⟩) u
    m'.pc = 0x8000000C+4 ∧ m'.regs = Isa.Machine.setT0 m.regs (0x8000000C+4) ∧ m'.mem = m.mem ∧
      m'.csr .mstatus = Isa.Csrs.mstatus ((m.csr .mstatus).getLsbD 3) true ∧
      ∀ r ∉ [Csr.Reg.mstatus,.mepc,.mcause,.mtval], m'.csr r = m.csr r := by
  obtain ⟨vol,hv⟩ := exists_implements (by decide) (by decide)
    (noFetchedStore_probe fun _ => ⟨false,{}⟩)
  obtain ⟨t,hd,ht⟩ := exists_finish 0x80000000 0x80000000 probe (fun _ => ⟨false,{}⟩) 3
  obtain ⟨u,_,hu⟩ := exists_finish 0x80000000 0x80000000 probe (fun _ => ⟨false,{}⟩) 8
  have hs := probe_run_step vol
  have hpc : (Isa.run 0x80000000 (.reset 0x80000000 probeMem) vol 3).pc = 0x8000000C := by
    rw [(hs 2).next,(hs 1).next,(hs 0).next]
    exact show probeNext (probeNext (probeNext 0x80000000)) = 0x8000000C by decide
  have htrap : trapAt 0x80000000 0x80000000 probe (fun _ => ⟨false,{}⟩) t = some 0x8000000C := by
    rw [hv.trapAt t hd,ht,(hs 3).trap,if_pos hpc,hpc]
  exact ⟨t,u,traps_skipped (by decide) (by decide) (noFetchedStore_probe _)
    (fun vol hv => (skipping_probe vol hv).toInstalled) htrap
    (by rw [hu,ht])⟩

end probe

end SimTop

end Rvntt
