import Rvntt.Datapath
set_option autoImplicit false

/-!
`rvntt_csr`: the machine-mode CSR file, its counters and the trap state. The
registers are split in two: `Arch` is what a program can predict from its own
instructions, the rest of `State` also depends on how many cycles they took.
-/

namespace Rvntt.Csr

abbrev Addr := BitVec 12

def csrSeed : Addr := 0x015
def csrMstatus : Addr := 0x300
def csrMisa : Addr := 0x301
def csrMie : Addr := 0x304
def csrMtvec : Addr := 0x305
def csrMscratch : Addr := 0x340
def csrMepc : Addr := 0x341
def csrMcause : Addr := 0x342
def csrMtval : Addr := 0x343
def csrMip : Addr := 0x344
def csrMcycle : Addr := 0xB00
def csrMinstret : Addr := 0xB02
def csrMcycleh : Addr := 0xB80
def csrMinstreth : Addr := 0xB82
def csrCycle : Addr := 0xC00
def csrInstret : Addr := 0xC02
def csrCycleh : Addr := 0xC80
def csrInstreth : Addr := 0xC82
def csrMcountinhibit : Addr := 0x320
def csrMvendorid : Addr := 0xF11
def csrMarchid : Addr := 0xF12
def csrMimpid : Addr := 0xF13
def csrMhartid : Addr := 0xF14

def hpmFirst : Nat := 3
def hpmN : Nat := 6
def hpmLast : Nat := hpmFirst+hpmN-1

def misaValue : Word := 0x40001100

structure Arch where
  mstatusMieQ : Bool := false
  mstatusMpieQ : Bool := false
  mtvecBaseQ : BitVec 30 := 0
  mscratchQ : Word := 0
  mepcQ : BitVec 30 := 0
  mcauseQ : Word := 0
  mtvalQ : Word := 0
  mieQ : Word := 0
  minstretQ : BitVec 64 := 0
  inhibitCyQ : Bool := false
  inhibitIrQ : Bool := false
  inhibitHpmQ : BitVec 6 := 0
  mhpmeventQ : Fin 6 → BitVec 4 := fun _ => hpmEvNone

structure State extends Arch where
  mcycleQ : BitVec 64 := 0
  mhpmcounterQ : Fin 6 → BitVec 64 := fun _ => 0
  hpmWatchQ : Fin 6 → BitVec 6 := fun _ => 0

structure In where
  addr : Addr
  wen : Bool
  wdata : Word
  instretBump : Bool
  hpmEvent : BitVec 6
  trapEn : Bool
  trapPc : Word
  trapCause : BitVec 5
  trapVal : Word
  mretEn : Bool

def mtvecO (s : Arch) : Word := s.mtvecBaseQ ++ (0 : BitVec 2)
def mepcO (s : Arch) : Word := s.mepcQ ++ (0 : BitVec 2)

/-- MPP reads as 11: there is only machine mode. -/
def mstatusRd (s : Arch) : Word :=
  (0 : BitVec 19) ++ (0b11 : BitVec 2) ++ (0 : BitVec 3) ++ BitVec.ofBool s.mstatusMpieQ ++
    (0 : BitVec 3) ++ BitVec.ofBool s.mstatusMieQ ++ (0 : BitVec 3)

def mcountinhibitRd (s : Arch) : Word :=
  (0 : BitVec 23) ++ s.inhibitHpmQ ++ BitVec.ofBool s.inhibitIrQ ++ (0 : BitVec 1) ++
    BitVec.ofBool s.inhibitCyQ

/-! The HPM address ranges; the counter index is in the low five bits of each. -/

def hpmIdx (addr : Addr) : BitVec 5 := addr.extractLsb' 0 5
def hpmImpl (addr : Addr) : Bool :=
  (BitVec.ofNat 5 hpmFirst).ule (hpmIdx addr) && (hpmIdx addr).ule (BitVec.ofNat 5 hpmLast)

/-- Only meaningful under `hpmImpl`, where it is below six. -/
def hpmSel (addr : Addr) : BitVec 3 := (hpmIdx addr).extractLsb' 0 3 - BitVec.ofNat 3 hpmFirst

def inRange (lo hi addr : Addr) : Bool := lo.ule addr && addr.ule hi
def hpmMlo (addr : Addr) : Bool := inRange 0xB03 0xB1F addr
def hpmMhi (addr : Addr) : Bool := inRange 0xB83 0xB9F addr
def hpmUlo (addr : Addr) : Bool := inRange 0xC03 0xC1F addr
def hpmUhi (addr : Addr) : Bool := inRange 0xC83 0xC9F addr
def hpmEvt (addr : Addr) : Bool := inRange 0x323 0x33F addr
def hpmAny (addr : Addr) : Bool :=
  hpmMlo addr || hpmMhi addr || hpmUlo addr || hpmUhi addr || hpmEvt addr

def hpmMask (ev : BitVec 4) (inhibit : Bool) : BitVec 6 :=
  if inhibit || ev == hpmEvNone || hpmEvMax.ult ev then 0 else (1 : BitVec 6) <<< (ev-1)

/-- A read of a six-entry array; an index past the end is never used. -/
def select {α : Type} (f : Fin 6 → α) (dflt : α) (i : BitVec 3) : α :=
  if h : i.toNat < 6 then f ⟨i.toNat,h⟩ else dflt

def update {α : Type} (f : Fin 6 → α) (i : BitVec 3) (v : α) : Fin 6 → α :=
  fun k => if k.val = i.toNat then v else f k

def setLo (c : BitVec 64) (v : Word) : BitVec 64 := c.extractLsb' 32 32 ++ v
def setHi (c : BitVec 64) (v : Word) : BitVec 64 := v ++ c.extractLsb' 0 32

/-! ### Read -/

def named : List Addr :=
  [csrMstatus,csrMisa,csrMie,csrMtvec,csrMscratch,csrMepc,csrMcause,csrMtval,csrMip,
    csrMcycle,csrCycle,csrMcycleh,csrCycleh,csrMinstret,csrInstret,csrMinstreth,csrInstreth,
    csrMvendorid,csrMarchid,csrMimpid,csrMhartid,csrMcountinhibit,csrSeed]

def known (addr : Addr) : Bool := named.contains addr || hpmAny addr

def rdata (s : State) (seedRdata : Word) (addr : Addr) : Word :=
  if addr = csrMstatus then mstatusRd s.toArch
  else if addr = csrMisa then misaValue
  else if addr = csrMie then s.mieQ
  else if addr = csrMtvec then mtvecO s.toArch
  else if addr = csrMscratch then s.mscratchQ
  else if addr = csrMepc then mepcO s.toArch
  else if addr = csrMcause then s.mcauseQ
  else if addr = csrMtval then s.mtvalQ
  else if addr = csrMip then 0
  else if addr = csrMcycle ∨ addr = csrCycle then s.mcycleQ.extractLsb' 0 32
  else if addr = csrMcycleh ∨ addr = csrCycleh then s.mcycleQ.extractLsb' 32 32
  else if addr = csrMinstret ∨ addr = csrInstret then s.minstretQ.extractLsb' 0 32
  else if addr = csrMinstreth ∨ addr = csrInstreth then s.minstretQ.extractLsb' 32 32
  else if addr = csrMvendorid ∨ addr = csrMarchid ∨ addr = csrMimpid ∨ addr = csrMhartid then 0
  else if addr = csrMcountinhibit then mcountinhibitRd s.toArch
  else if addr = csrSeed then seedRdata
  else if hpmImpl addr then
    if hpmMlo addr || hpmUlo addr then
      (select s.mhpmcounterQ 0 (hpmSel addr)).extractLsb' 0 32
    else if hpmMhi addr || hpmUhi addr then
      (select s.mhpmcounterQ 0 (hpmSel addr)).extractLsb' 32 32
    else if hpmEvt addr then (select s.mhpmeventQ 0 (hpmSel addr)).setWidth 32
    else 0
  else 0

/-! ### Access rules -/

def readOnly (addr : Addr) : Bool := addr.extractLsb' 10 2 == 0b11
def seedAccess (addr : Addr) : Bool := addr == csrSeed

/-- `seed` is read-write-only: an access that does not write it is illegal. -/
def seedIllegal (addr : Addr) (wen : Bool) : Bool := seedAccess addr && !wen

def illegal (addr : Addr) (wen : Bool) : Bool :=
  !known addr || (wen && readOnly addr) || seedIllegal addr wen

def seedRdEn (addr : Addr) (wen : Bool) : Bool := seedAccess addr && wen

def doWrite (addr : Addr) (wen : Bool) : Bool := wen && known addr && !readOnly addr

def minstretWritten (addr : Addr) (wen : Bool) : Bool :=
  doWrite addr wen && (addr == csrMinstret || addr == csrMinstreth)

def hpmWritten (addr : Addr) (wen : Bool) : Bool :=
  doWrite addr wen && hpmImpl addr && (hpmMlo addr || hpmMhi addr)

/-! ### State update -/

def tickMcycle (s : State) : BitVec 64 := if s.inhibitCyQ then s.mcycleQ else s.mcycleQ+1

def tickMinstret (s : State) (i : In) : BitVec 64 :=
  if i.instretBump && !minstretWritten i.addr i.wen && !s.inhibitIrQ then s.minstretQ+1
  else s.minstretQ

def tickHpm (s : State) (i : In) : Fin 6 → BitVec 64 := fun k =>
  if s.hpmWatchQ k &&& i.hpmEvent ≠ 0 ∧
      ¬(hpmWritten i.addr i.wen = true ∧ hpmSel i.addr = BitVec.ofNat 3 k.val) then
    s.mhpmcounterQ k+1
  else s.mhpmcounterQ k

def tick (s : State) (i : In) : State :=
  {s with
    mcycleQ := tickMcycle s
    minstretQ := tickMinstret s i
    mhpmcounterQ := tickHpm s i}

/-- An explicit write. The last assignment wins bit by bit, so a write of half a
counter lands on the ticked value `t`. -/
def write (t : State) (addr : Addr) (wdata : Word) : State :=
  if addr = csrMstatus then
    {t with mstatusMieQ := wdata.getLsbD 3, mstatusMpieQ := wdata.getLsbD 7}
  else if addr = csrMie then {t with mieQ := wdata}
  else if addr = csrMtvec then {t with mtvecBaseQ := wdata.extractLsb' 2 30}
  else if addr = csrMscratch then {t with mscratchQ := wdata}
  else if addr = csrMepc then {t with mepcQ := wdata.extractLsb' 2 30}
  else if addr = csrMcause then {t with mcauseQ := wdata}
  else if addr = csrMtval then {t with mtvalQ := wdata}
  else if addr = csrMcycle then {t with mcycleQ := setLo t.mcycleQ wdata}
  else if addr = csrMcycleh then {t with mcycleQ := setHi t.mcycleQ wdata}
  else if addr = csrMinstret then {t with minstretQ := setLo t.minstretQ wdata}
  else if addr = csrMinstreth then {t with minstretQ := setHi t.minstretQ wdata}
  else if addr = csrMcountinhibit then
    {t with
      inhibitCyQ := wdata.getLsbD 0
      inhibitIrQ := wdata.getLsbD 2
      inhibitHpmQ := wdata.extractLsb' 3 6
      hpmWatchQ := fun k => hpmMask (t.mhpmeventQ k) (wdata.getLsbD (hpmFirst+k.val))}
  else if hpmImpl addr then
    let sel := hpmSel addr
    if hpmMlo addr then
      {t with mhpmcounterQ :=
        update t.mhpmcounterQ sel (setLo (select t.mhpmcounterQ 0 sel) wdata)}
    else if hpmMhi addr then
      {t with mhpmcounterQ :=
        update t.mhpmcounterQ sel (setHi (select t.mhpmcounterQ 0 sel) wdata)}
    else if hpmEvt addr && (wdata.extractLsb' 0 4).ule hpmEvMax && wdata.extractLsb' 4 28 == 0 then
      {t with
        mhpmeventQ := update t.mhpmeventQ sel (wdata.extractLsb' 0 4)
        hpmWatchQ := update t.hpmWatchQ sel
          (hpmMask (wdata.extractLsb' 0 4) (t.inhibitHpmQ.getLsbD sel.toNat))}
    else t
  else t

/-- Trap entry outranks MRET, which outranks an explicit write. -/
def next (s : State) (i : In) : State :=
  let t := tick s i
  if i.trapEn then
    {t with
      mepcQ := i.trapPc.extractLsb' 2 30
      mcauseQ := i.trapCause.setWidth 32
      mtvalQ := i.trapVal
      mstatusMpieQ := t.mstatusMieQ
      mstatusMieQ := false}
  else if i.mretEn then
    {t with mstatusMieQ := t.mstatusMpieQ, mstatusMpieQ := true}
  else if doWrite i.addr i.wen then write t i.addr i.wdata
  else t

/-! ### What a write leaves alone -/

structure SameMinstret (s t : State) : Prop where
  eq : t.minstretQ = s.minstretQ

theorem write_minstret_other (t : State) {addr : Addr} (v : Word) (h1 : addr ≠ csrMinstret)
    (h2 : addr ≠ csrMinstreth) : SameMinstret t (write t addr v) := by
  unfold write
  iterate 9 refine ite_of (SameMinstret t) (fun _ => ⟨rfl⟩) fun _ => ?_
  rw [if_neg h1,if_neg h2]
  refine ite_of (SameMinstret t) (fun _ => ⟨rfl⟩) fun _ => ?_
  refine ite_of (SameMinstret t) (fun _ => ?_) fun _ => ⟨rfl⟩
  iterate 3 refine ite_of (SameMinstret t) (fun _ => ⟨rfl⟩) fun _ => ?_
  exact ⟨rfl⟩

structure SameCounters (s t : State) : Prop where
  mcycle : t.mcycleQ = s.mcycleQ
  minstret : t.minstretQ = s.minstretQ
  hpm : t.mhpmcounterQ = s.mhpmcounterQ
  watch : t.hpmWatchQ = s.hpmWatchQ
  event : t.mhpmeventQ = s.mhpmeventQ
  cy : t.inhibitCyQ = s.inhibitCyQ
  ir : t.inhibitIrQ = s.inhibitIrQ
  inhibitHpm : t.inhibitHpmQ = s.inhibitHpmQ

def counterAddr (addr : Addr) : Bool :=
  [csrMcycle,csrMcycleh,csrMinstret,csrMinstreth,csrMcountinhibit].contains addr ||
    (hpmImpl addr && (hpmMlo addr || hpmMhi addr || hpmEvt addr))

theorem write_other (t : State) {addr : Addr} (v : Word) (h : counterAddr addr = false) :
    SameCounters t (write t addr v) := by
  simp only [counterAddr,Bool.or_eq_false_iff,List.contains_eq_mem,decide_eq_false_iff_not,
    List.mem_cons,not_or] at h
  obtain ⟨⟨h1,h2,h3,h4,h5,_⟩,h6⟩ := h
  unfold write
  iterate 7 refine ite_of (SameCounters t) (fun _ => ⟨rfl,rfl,rfl,rfl,rfl,rfl,rfl,rfl⟩) fun _ => ?_
  rw [if_neg h1,if_neg h2,if_neg h3,if_neg h4,if_neg h5]
  refine ite_of (SameCounters t) (fun hi => ?_) fun _ => ⟨rfl,rfl,rfl,rfl,rfl,rfl,rfl,rfl⟩
  rw [hi] at h6
  simp only [Bool.true_and,Bool.or_eq_false_iff] at h6
  simp only [h6]
  exact ⟨rfl,rfl,rfl,rfl,rfl,rfl,rfl,rfl⟩

def writing (i : In) : Bool := !i.trapEn && !i.mretEn && doWrite i.addr i.wen

theorem next_writing {s : State} {i : In} (h : writing i = true) :
    next s i = write (tick s i) i.addr i.wdata := by
  simp only [writing,Bool.and_eq_true,Bool.not_eq_true'] at h
  simp [next,h]

theorem next_other {s : State} {i : In} (h : writing i = true → counterAddr i.addr = false) :
    SameCounters (tick s i) (next s i) := by
  unfold next
  refine ite_of (SameCounters _) (fun _ => ⟨rfl,rfl,rfl,rfl,rfl,rfl,rfl,rfl⟩) fun ht => ?_
  refine ite_of (SameCounters _) (fun _ => ⟨rfl,rfl,rfl,rfl,rfl,rfl,rfl,rfl⟩) fun hm => ?_
  refine ite_of (SameCounters _) (fun hw => ?_) fun _ => ⟨rfl,rfl,rfl,rfl,rfl,rfl,rfl,rfl⟩
  exact write_other _ _ (h (by simp [writing,ht,hm,hw]))

theorem counterAddr_minstret {addr : Addr} {wen : Bool} (h : minstretWritten addr wen = true) :
    (addr = csrMinstret ∨ addr = csrMinstreth) ∧ doWrite addr wen = true := by
  simp only [minstretWritten,Bool.and_eq_true,Bool.or_eq_true,beq_iff_eq] at h
  exact ⟨h.2,h.1⟩

theorem next_minstret (s : State) (i : In) : (next s i).minstretQ =
    if !i.trapEn && !i.mretEn && minstretWritten i.addr i.wen then
      if i.addr = csrMinstret then setLo s.minstretQ i.wdata else setHi s.minstretQ i.wdata
    else tickMinstret s i := by
  split
  · rename_i h
    simp only [Bool.and_eq_true,Bool.not_eq_true'] at h
    obtain ⟨⟨ht,hm⟩,hw⟩ := h
    obtain ⟨ha,hd⟩ := counterAddr_minstret hw
    have hn : next s i = write (tick s i) i.addr i.wdata :=
      next_writing (by simp [writing,ht,hm,hd])
    have htick : (tick s i).minstretQ = s.minstretQ := by simp [tick,tickMinstret,hw]
    rw [hn]
    rcases ha with ha | ha
    · rw [ha,if_pos rfl,← htick]; rfl
    · rw [ha,if_neg (by decide),← htick]; rfl
  · rename_i h
    by_cases hw : writing i = true
    · have hne : i.addr ≠ csrMinstret ∧ i.addr ≠ csrMinstreth := by
        simp only [writing,Bool.and_eq_true] at hw
        simp only [minstretWritten,hw.1.1,hw.1.2,hw.2,Bool.true_and,Bool.or_eq_true,
          beq_iff_eq,not_or] at h
        exact h
      rw [next_writing hw]
      exact (write_minstret_other _ _ hne.1 hne.2).eq
    · exact (next_other fun h' => absurd h' hw).minstret

theorem write_inhibit (t : State) (v : Word) : write t csrMcountinhibit v =
    {t with
      inhibitCyQ := v.getLsbD 0
      inhibitIrQ := v.getLsbD 2
      inhibitHpmQ := v.extractLsb' 3 6
      hpmWatchQ := fun k => hpmMask (t.mhpmeventQ k) (v.getLsbD (hpmFirst+k.val))} := rfl

/-! ### The architectural part -/

structure SameArch (s t : State) : Prop where
  eq : s.toArch = t.toArch

theorem ite_rel {α : Type} {c : Prop} [Decidable c] (R : α → α → Prop) {a b a' b' : α}
    (ha : c → R a a') (hb : ¬c → R b b') : R (if c then a else b) (if c then a' else b') := by
  split
  · exact ha ‹_›
  · exact hb ‹_›

theorem write_arch {s t : State} (h : s.toArch = t.toArch) (addr : Addr) (v : Word) :
    SameArch (write s addr v) (write t addr v) := by
  obtain ⟨a,_,_,_⟩ := s
  obtain ⟨_,_,_,_⟩ := t
  obtain rfl := h
  unfold write
  iterate 12 refine ite_rel SameArch (fun _ => ⟨rfl⟩) fun _ => ?_
  refine ite_rel SameArch (fun _ => ?_) fun _ => ⟨rfl⟩
  iterate 3 refine ite_rel SameArch (fun _ => ⟨rfl⟩) fun _ => ?_
  exact ⟨rfl⟩

/-- What an edge may read of its inputs without the cycle counts. -/
structure SameRequest (i j : In) : Prop where
  addr : i.addr = j.addr
  wen : i.wen = j.wen
  wdata : i.wen = true → i.wdata = j.wdata
  bump : i.instretBump = j.instretBump
  trapEn : i.trapEn = j.trapEn
  trapPc : i.trapPc = j.trapPc
  trapCause : i.trapCause = j.trapCause
  trapVal : i.trapVal = j.trapVal
  mretEn : i.mretEn = j.mretEn

theorem tick_arch {s t : State} {i j : In} (h : s.toArch = t.toArch) (hij : SameRequest i j) :
    (tick s i).toArch = (tick t j).toArch := by
  obtain ⟨a,_,_,_⟩ := s
  obtain ⟨_,_,_,_⟩ := t
  obtain rfl := h
  simp [tick,tickMinstret,hij.bump,hij.addr,hij.wen]

def settle (t : State) (i : In) : State :=
  if i.trapEn then
    {t with
      mepcQ := i.trapPc.extractLsb' 2 30
      mcauseQ := i.trapCause.setWidth 32
      mtvalQ := i.trapVal
      mstatusMpieQ := t.mstatusMieQ
      mstatusMieQ := false}
  else if i.mretEn then {t with mstatusMieQ := t.mstatusMpieQ, mstatusMpieQ := true}
  else if doWrite i.addr i.wen then write t i.addr i.wdata
  else t

theorem settle_arch {s t : State} {i j : In} (h : s.toArch = t.toArch) (hij : SameRequest i j) :
    SameArch (settle s i) (settle t j) := by
  obtain ⟨a,sm,sc,sw⟩ := s
  obtain ⟨b,tm,tc,tw⟩ := t
  obtain rfl : a = b := h
  obtain ⟨ia,iw,id,ib,ie,it,ip,ic,iv,im⟩ := i
  obtain ⟨ja,jw,jd,jb,je,jt,jp,jc,jv,jm⟩ := j
  obtain ⟨rfl,rfl,hd,rfl,rfl,rfl,rfl,rfl,rfl⟩ := hij
  unfold settle
  iterate 2 refine ite_rel SameArch (fun _ => ⟨rfl⟩) fun _ => ?_
  refine ite_rel SameArch (fun hw => ?_) fun _ => ⟨rfl⟩
  simp only [doWrite,Bool.and_eq_true] at hw
  obtain rfl : id = jd := hd hw.1.1
  have hst : State.toArch ⟨a,sm,sc,sw⟩ = State.toArch ⟨a,tm,tc,tw⟩ := rfl
  exact write_arch hst ia id

theorem next_arch {s t : State} {i j : In} (h : s.toArch = t.toArch) (hij : SameRequest i j) :
    (next s i).toArch = (next t j).toArch :=
  (settle_arch (tick_arch h hij) hij).eq

theorem next_idle (s : State) {i : In} (hw : i.wen = false) (hb : i.instretBump = false)
    (ht : i.trapEn = false) (hm : i.mretEn = false) : (next s i).toArch = s.toArch := by
  simp [next,ht,hm,doWrite,hw,tick,tickMinstret,hb]

/-! ### The event masks -/

/-- The registered masks are the selectors' under the inhibit bits. -/
def WatchOk (s : State) : Prop :=
  ∀ k, s.hpmWatchQ k = hpmMask (s.mhpmeventQ k) (s.inhibitHpmQ.getLsbD k.val)

theorem watchOk_reset : WatchOk {} := by
  intro k
  change (0 : BitVec 6) = hpmMask hpmEvNone _
  rw [hpmMask,if_pos (by simp)]

theorem SameCounters.watchOk {s t : State} (h : SameCounters s t) (hs : WatchOk s) :
    WatchOk t := by
  intro k
  rw [h.watch,h.event,h.inhibitHpm]
  exact hs k

theorem watchOk_write {t : State} (addr : Addr) (v : Word) (h : WatchOk t) :
    WatchOk (write t addr v) := by
  unfold write
  iterate 11 refine ite_of WatchOk (fun _ => h) fun _ => ?_
  refine ite_of WatchOk (fun _ k => ?_) fun _ => ?_
  · have hk : (v.extractLsb' 3 6).getLsbD k.val = v.getLsbD (hpmFirst+k.val) := by
      simp [hpmFirst]
    simp only [hk]
  refine ite_of WatchOk (fun _ => ?_) fun _ => h
  iterate 2 refine ite_of WatchOk (fun _ => h) fun _ => ?_
  refine ite_of WatchOk (fun _ k => ?_) fun _ => h
  simp only [update]
  split
  · rename_i hk; rw [hk]
  · exact h k

theorem watchOk_next {s : State} (i : In) (h : WatchOk s) : WatchOk (next s i) := by
  by_cases hw : writing i = true
  · rw [next_writing hw]
    exact watchOk_write _ _ h
  · exact (next_other fun h' => absurd h' hw).watchOk h

end Rvntt.Csr
