import Mathlib.Tactic.IntervalCases
import Rvntt.CsrCounters
import Rvntt.Pipeline
set_option autoImplicit false

/-!
The rules of `rvntt_csr` as a program sees them: which accesses are legal, what a
write reads back as, and what it leaves alone.
-/

namespace Rvntt.Csr

/-! ### Accesses -/

inductive Op where
  | rw | rs | rc
  deriving DecidableEq, Repr

def Op.apply : Op → Word → Word → Word
  | rw,_,src => src
  | rs,old,src => old ||| src
  | rc,old,src => old &&& ~~~src

/-- A CSR instruction; `srcNz` tells that its source field is not zero. -/
structure Access where
  addr : Addr
  op : Op
  src : Word
  srcNz : Bool

namespace Access

def writes (a : Access) : Bool := a.op == .rw || a.srcNz

def wdata (a : Access) (s : State) (seedRdata : Word) : Word :=
  a.op.apply (rdata s seedRdata a.addr) a.src

def onto (a : Access) (s : State) (seedRdata : Word) (i : In) : In :=
  {i with
    addr := a.addr
    wen := a.writes
    wdata := a.wdata s seedRdata
    trapEn := false
    mretEn := false}

end Access

/-! ### The map -/

def single : List Addr :=
  [0x015,0x300,0x301,0x304,0x305,0x320,0x340,0x341,0x342,0x343,0x344,0xB00,0xB02,0xB80,0xB82,
    0xC00,0xC02,0xC80,0xC82,0xF11,0xF12,0xF13,0xF14]

/-- Event selectors, counters and their shadows, of which 3 to 31 exist. -/
def numbered : List Nat := [0x320,0xB00,0xB80,0xC00,0xC80]

def Implemented (addr : Addr) : Prop :=
  addr ∈ single ∨ ∃ base ∈ numbered, ∃ n, 3 ≤ n ∧ n ≤ 31 ∧ addr.toNat = base+n

def ReadOnly (addr : Addr) : Prop := 0xC00 ≤ addr.toNat

instance (addr : Addr) : Decidable (ReadOnly addr) := inferInstanceAs (Decidable (_ ≤ _))

theorem named_iff (addr : Addr) : named.contains addr = true ↔ addr ∈ single := by
  rw [List.contains_iff_mem]
  have h : named.Perm single := by decide
  exact h.mem_iff

theorem hpmAny_iff (addr : Addr) : hpmAny addr = true ↔
    ∃ base ∈ numbered, ∃ n, 3 ≤ n ∧ n ≤ 31 ∧ addr.toNat = base+n := by
  simp only [hpmAny,hpmMlo,hpmMhi,hpmUlo,hpmUhi,hpmEvt,Bool.or_eq_true,inRange_iff,numbered,
    List.mem_cons,List.not_mem_nil,or_false,exists_eq_or_imp,exists_eq_left]
  change ((((_ ∧ addr.toNat ≤ 0xB1F) ∨ (0xB83 ≤ addr.toNat ∧ addr.toNat ≤ 0xB9F)) ∨
    (0xC03 ≤ addr.toNat ∧ addr.toNat ≤ 0xC1F)) ∨ (0xC83 ≤ addr.toNat ∧ addr.toNat ≤ 0xC9F)) ∨
    (0x323 ≤ addr.toNat ∧ addr.toNat ≤ 0x33F) ↔ _
  constructor
  · rintro ((((h | h) | h) | h) | h)
    · exact .inr (.inl ⟨addr.toNat-0xB00,by change 0xB03 ≤ _ ∧ _ at h; omega⟩)
    · exact .inr (.inr (.inl ⟨addr.toNat-0xB80,by omega⟩))
    · exact .inr (.inr (.inr (.inl ⟨addr.toNat-0xC00,by omega⟩)))
    · exact .inr (.inr (.inr (.inr ⟨addr.toNat-0xC80,by omega⟩)))
    · exact .inl ⟨addr.toNat-0x320,by omega⟩
  · change _ → ((((0xB03 ≤ addr.toNat ∧ _) ∨ _) ∨ _) ∨ _) ∨ _
    rintro (⟨n,h⟩ | ⟨n,h⟩ | ⟨n,h⟩ | ⟨n,h⟩ | ⟨n,h⟩) <;> omega

theorem known_iff (addr : Addr) : known addr = true ↔ Implemented addr := by
  rw [known,Bool.or_eq_true,named_iff,hpmAny_iff]
  rfl

theorem readOnly_iff (addr : Addr) : readOnly addr = true ↔ ReadOnly addr := by
  have hlt := addr.isLt
  rw [readOnly,beq_iff_eq,BitVec.toNat_eq,BitVec.extractLsb'_toNat,Nat.shiftRight_eq_div_pow,
    ReadOnly]
  change addr.toNat/2^10 % 2^2 = 3 ↔ _
  omega

theorem illegal_iff (addr : Addr) (wen : Bool) : illegal addr wen = true ↔
    ¬Implemented addr ∨ (wen = true ∧ ReadOnly addr) ∨ (addr = csrSeed ∧ wen = false) := by
  rw [illegal,Bool.or_eq_true,Bool.or_eq_true,Bool.and_eq_true,Bool.not_eq_true',
    ← Bool.not_eq_true,known_iff,readOnly_iff,seedIllegal,seedAccess,Bool.and_eq_true,
    beq_iff_eq,Bool.not_eq_true',or_assoc]

/-! ### What an address reads -/

inductive Reg where
  | mstatus | mie | mtvec | mscratch | mepc | mcause | mtval | mcountinhibit
  | mhpmevent (k : Fin 6)
  deriving DecidableEq, Repr

namespace Reg

def addr : Reg → Addr
  | mstatus => csrMstatus
  | mie => csrMie
  | mtvec => csrMtvec
  | mscratch => csrMscratch
  | mepc => csrMepc
  | mcause => csrMcause
  | mtval => csrMtval
  | mcountinhibit => csrMcountinhibit
  | mhpmevent k => 0x323+BitVec.ofNat 12 k.val

def value (s : State) : Reg → Word
  | mstatus => mstatusRd s.toArch
  | mie => s.mieQ
  | mtvec => mtvecO s.toArch
  | mscratch => s.mscratchQ
  | mepc => mepcO s.toArch
  | mcause => s.mcauseQ
  | mtval => s.mtvalQ
  | mcountinhibit => mcountinhibitRd s.toArch
  | mhpmevent k => (s.mhpmeventQ k).setWidth 32

end Reg

/-- The value an address holds after a legal write of `v` to it; `old` is what it read. -/
def legalise (seedRdata old : Word) (addr : Addr) (v : Word) : Word :=
  if addr = csrMstatus then (v &&& 0x88) ||| 0x1800
  else if addr = csrMtvec ∨ addr = csrMepc then v &&& 0xFFFFFFFC
  else if addr = csrMcountinhibit then v &&& 0x1FD
  else if addr = csrMisa then misaValue
  else if addr = csrMip then 0
  else if addr = csrSeed then seedRdata
  else if 0x323 ≤ addr.toNat ∧ addr.toNat ≤ 0x328 then if v.toNat ≤ 6 then v else old
  else if 0x329 ≤ addr.toNat ∧ addr.toNat ≤ 0x33F then 0
  else if 0xB09 ≤ addr.toNat ∧ addr.toNat ≤ 0xB1F then 0
  else if 0xB89 ≤ addr.toNat ∧ addr.toNat ≤ 0xB9F then 0
  else v

theorem mstatus_warl (v : Word) :
    mstatusRd {mstatusMieQ := v.getLsbD 3, mstatusMpieQ := v.getLsbD 7} =
      (v &&& 0x88) ||| 0x1800 := by
  rw [mstatusRd]
  refine BitVec.eq_of_getLsbD_eq fun i hi => ?_
  simp only [BitVec.getLsbD_append,BitVec.getLsbD_or,BitVec.getLsbD_and,BitVec.getLsbD_ofBool]
  interval_cases i <;> simp

theorem aligned_warl (v : Word) :
    v.extractLsb' 2 30 ++ (0 : BitVec 2) = v &&& 0xFFFFFFFC := by
  refine BitVec.eq_of_getLsbD_eq fun i hi => ?_
  simp only [BitVec.getLsbD_append,BitVec.getLsbD_and]
  interval_cases i <;> simp

theorem mcountinhibit_warl (v : Word) :
    mcountinhibitRd
      {inhibitCyQ := v.getLsbD 0, inhibitIrQ := v.getLsbD 2, inhibitHpmQ := v.extractLsb' 3 6} =
        v &&& 0x1FD := by
  rw [mcountinhibitRd]
  refine BitVec.eq_of_getLsbD_eq fun i hi => ?_
  simp only [BitVec.getLsbD_append,BitVec.getLsbD_and,BitVec.getLsbD_ofBool]
  interval_cases i <;> simp

theorem Reg.value_ite (r : Reg) {c : Prop} [Decidable c] (s t : State) :
    r.value (if c then s else t) = if c then r.value s else r.value t :=
  apply_ite (r.value ·) c s t

/-! ### Event selectors -/

theorem event_toNat (k : Fin 6) : (Reg.mhpmevent k).addr.toNat = 0x323+k.val := by
  revert k
  decide

theorem event_legal (v : Word) :
    ((v.extractLsb' 0 4).ule hpmEvMax && v.extractLsb' 4 28 == 0) = decide (v.toNat ≤ 6) := by
  have hv := v.isLt
  rw [Bool.eq_iff_iff,Bool.and_eq_true,BitVec.ule_iff_le,BitVec.le_def,beq_iff_eq,
    BitVec.toNat_eq,BitVec.extractLsb'_toNat,BitVec.extractLsb'_toNat,Nat.shiftRight_eq_div_pow,
    Nat.shiftRight_eq_div_pow,decide_eq_true_eq]
  change v.toNat/2^0 % 2^4 ≤ 6 ∧ v.toNat/2^4 % 2^28 = 0 ↔ _
  omega

theorem write_event (t : State) (k : Fin 6) (v : Word) :
    (write t (Reg.mhpmevent k).addr v).mhpmeventQ k =
      if v.toNat ≤ 6 then v.extractLsb' 0 4 else t.mhpmeventQ k := by
  have h : write t (Reg.mhpmevent k).addr v =
      if (v.extractLsb' 0 4).ule hpmEvMax && v.extractLsb' 4 28 == 0 then
        {t with
          mhpmeventQ := update t.mhpmeventQ (BitVec.ofNat 3 k.val) (v.extractLsb' 0 4)
          hpmWatchQ := update t.hpmWatchQ (BitVec.ofNat 3 k.val)
            (hpmMask (v.extractLsb' 0 4) (t.inhibitHpmQ.getLsbD (BitVec.ofNat 3 k.val).toNat))}
      else t := by
    fin_cases k <;> rfl
  have hk : k.val = (BitVec.ofNat 3 k.val).toNat := by
    rw [BitVec.toNat_ofNat,Nat.mod_eq_of_lt (by omega)]
  rw [h,event_legal]
  by_cases hv : v.toNat ≤ 6
  · simp only [hv,decide_true,if_true,update,← hk]
  · simp only [hv,decide_false,if_false,Bool.false_eq_true]

theorem write_event_other (t : State) {addr : Addr} (v : Word) {k : Fin 6}
    (h : addr ≠ (Reg.mhpmevent k).addr) : (write t addr v).mhpmeventQ k = t.mhpmeventQ k := by
  rw [ne_eq,BitVec.toNat_eq,event_toNat] at h
  have hne : hpmImpl addr = true → hpmEvt addr = true → k.val ≠ (hpmSel addr).toNat := by
    intro hi hm
    rw [hpmSel_toNat hi]
    rw [hpmEvt,inRange_iff] at hm
    change 0x323 ≤ addr.toNat ∧ addr.toNat ≤ 0x33F at hm
    rw [hpmImpl_iff] at hi
    omega
  unfold write
  simp only [apply_ite State.toArch,apply_ite Arch.mhpmeventQ,
    apply_ite (fun f : Fin 6 → BitVec 4 => f k)]
  simp only [update]
  by_cases hi : hpmImpl addr = true
  · by_cases hm : hpmEvt addr = true
    · simp [hi,hm,hne hi hm]
    · simp [hi,hm]
  · simp [hi]

/-! ### One register under a write -/

theorem write_reg_other (t : State) {addr : Addr} (v : Word) {r : Reg} (h : addr ≠ r.addr) :
    r.value (write t addr v) = r.value t := by
  cases r with
  | mhpmevent k => exact congrArg (BitVec.setWidth 32) (write_event_other t v h)
  | _ =>
    simp only [Reg.addr] at h
    unfold write
    simp only [Reg.value_ite,if_neg h]
    simp only [Reg.value,mstatusRd,mtvecO,mepcO,mcountinhibitRd,ite_self]

theorem write_reg_self (t : State) (seedRdata v : Word) (r : Reg) :
    r.value (write t r.addr v) = legalise seedRdata (r.value t) r.addr v := by
  cases r with
  | mstatus => exact mstatus_warl v
  | mtvec => exact aligned_warl v
  | mepc => exact aligned_warl v
  | mcountinhibit => exact mcountinhibit_warl v
  | mhpmevent k =>
    have hl : ∀ old, legalise seedRdata old (Reg.mhpmevent k).addr v =
        if v.toNat ≤ 6 then v else old := by
      intro old
      fin_cases k <;> rfl
    rw [hl,Reg.value,write_event]
    split
    · refine BitVec.eq_of_toNat_eq ?_
      rw [BitVec.toNat_setWidth,BitVec.extractLsb'_toNat,Nat.shiftRight_zero]
      omega
    · rfl
  | _ => rfl

/-! ### Where a read comes from -/

inductive Source where
  | reg (r : Reg)
  | lo (c : Counter)
  | hi (c : Counter)
  | seed
  | const (w : Word)

namespace Source

def read (s : State) (seedRdata : Word) : Source → Word
  | reg r => r.value s
  | lo c => low (c.value s)
  | hi c => high (c.value s)
  | seed => seedRdata
  | const w => w

/-- The addresses of a source. The constants are what is left, `misa` apart. -/
def At (addr : Addr) : Source → Prop
  | reg r => addr = r.addr
  | lo c => addr = c.lo ∨ addr = c.lo+0x100
  | hi c => addr = c.hi ∨ addr = c.hi+0x100
  | seed => addr = csrSeed
  | const w => (addr = csrMisa ∧ w = misaValue) ∨ w = 0 ∧
      (addr = csrMip ∨ ReadOnly addr ∨ (addr ∉ named ∧ ¬(hpmImpl addr = true ∧ hpmAny addr = true)))

end Source

def Reads (addr : Addr) (src : Source) : Prop :=
  src.At addr ∧ ∀ s seedRdata, rdata s seedRdata addr = src.read s seedRdata

theorem shadow_lo_toNat (c : Counter) : (c.lo+0x100).toNat = c.lo.toNat+0x100 := by
  cases c with
  | mhpmcounter k => revert k; decide
  | _ => rfl

theorem shadow_hi_toNat (c : Counter) : (c.hi+0x100).toNat = c.lo.toNat+0x180 := by
  cases c with
  | mhpmcounter k => revert k; decide
  | _ => rfl

theorem reads_named {addr : Addr} (h : addr ∈ named) : ∃ src, Reads addr src := by
  simp only [named,List.mem_cons,List.not_mem_nil,or_false] at h
  rcases h with rfl | rfl | rfl | rfl | rfl | rfl | rfl | rfl | rfl | rfl | rfl | rfl | rfl | rfl |
    rfl | rfl | rfl | rfl | rfl | rfl | rfl | rfl | rfl
  · exact ⟨.reg .mstatus,rfl,fun _ _ => rfl⟩
  · exact ⟨.const misaValue,.inl ⟨rfl,rfl⟩,fun _ _ => rfl⟩
  · exact ⟨.reg .mie,rfl,fun _ _ => rfl⟩
  · exact ⟨.reg .mtvec,rfl,fun _ _ => rfl⟩
  · exact ⟨.reg .mscratch,rfl,fun _ _ => rfl⟩
  · exact ⟨.reg .mepc,rfl,fun _ _ => rfl⟩
  · exact ⟨.reg .mcause,rfl,fun _ _ => rfl⟩
  · exact ⟨.reg .mtval,rfl,fun _ _ => rfl⟩
  · exact ⟨.const 0,.inr ⟨rfl,.inl rfl⟩,fun _ _ => rfl⟩
  · exact ⟨.lo .mcycle,.inl rfl,fun _ _ => rfl⟩
  · exact ⟨.lo .mcycle,.inr rfl,fun _ _ => rfl⟩
  · exact ⟨.hi .mcycle,.inl rfl,fun _ _ => rfl⟩
  · exact ⟨.hi .mcycle,.inr rfl,fun _ _ => rfl⟩
  · exact ⟨.lo .minstret,.inl rfl,fun _ _ => rfl⟩
  · exact ⟨.lo .minstret,.inr rfl,fun _ _ => rfl⟩
  · exact ⟨.hi .minstret,.inl rfl,fun _ _ => rfl⟩
  · exact ⟨.hi .minstret,.inr rfl,fun _ _ => rfl⟩
  · exact ⟨.const 0,.inr ⟨rfl,.inr (.inl (by decide))⟩,fun _ _ => rfl⟩
  · exact ⟨.const 0,.inr ⟨rfl,.inr (.inl (by decide))⟩,fun _ _ => rfl⟩
  · exact ⟨.const 0,.inr ⟨rfl,.inr (.inl (by decide))⟩,fun _ _ => rfl⟩
  · exact ⟨.const 0,.inr ⟨rfl,.inr (.inl (by decide))⟩,fun _ _ => rfl⟩
  · exact ⟨.reg .mcountinhibit,rfl,fun _ _ => rfl⟩
  · exact ⟨.seed,rfl,fun _ _ => rfl⟩

theorem rdata_unnamed {addr : Addr} (h : addr ∉ named) (s : State) (seedRdata : Word) :
    rdata s seedRdata addr =
      if hpmImpl addr then
        if hpmMlo addr || hpmUlo addr then
          (select s.mhpmcounterQ 0 (hpmSel addr)).extractLsb' 0 32
        else if hpmMhi addr || hpmUhi addr then
          (select s.mhpmcounterQ 0 (hpmSel addr)).extractLsb' 32 32
        else if hpmEvt addr then (select s.mhpmeventQ 0 (hpmSel addr)).setWidth 32
        else 0
      else 0 := by
  simp only [named,List.mem_cons,List.not_mem_nil,or_false,not_or] at h
  simp only [rdata,h,or_self,if_false]

theorem reads_unnamed {addr : Addr} (h : addr ∉ named) : ∃ src, Reads addr src := by
  have hrd := rdata_unnamed h
  by_cases hi : hpmImpl addr = true
  · have hsel := hpmSel_toNat hi
    have hr := (hpmImpl_iff addr).mp hi
    obtain ⟨k,hk⟩ : ∃ k : Fin 6, (hpmSel addr).toNat = k.val := ⟨⟨addr.toNat % 32-3,by omega⟩,hsel⟩
    by_cases hlo : (hpmMlo addr || hpmUlo addr) = true
    · refine ⟨.lo (.mhpmcounter k),?_,fun s r => ?_⟩
      · rw [hpmMlo,hpmUlo,Bool.or_eq_true,inRange_iff,inRange_iff] at hlo
        change (0xB03 ≤ _ ∧ _ ≤ 0xB1F) ∨ (0xC03 ≤ _ ∧ _ ≤ 0xC1F) at hlo
        rw [Source.At,BitVec.toNat_eq,BitVec.toNat_eq,shadow_lo_toNat,Counter.lo_toNat]
        change _ = 0xB03+k.val ∨ _ = 0xB03+k.val+0x100
        omega
      · rw [hrd,if_pos hi,if_pos hlo,select_eq _ _ k hk]
        rfl
    by_cases hhi : (hpmMhi addr || hpmUhi addr) = true
    · refine ⟨.hi (.mhpmcounter k),?_,fun s r => ?_⟩
      · rw [hpmMhi,hpmUhi,Bool.or_eq_true,inRange_iff,inRange_iff] at hhi
        change (0xB83 ≤ _ ∧ _ ≤ 0xB9F) ∨ (0xC83 ≤ _ ∧ _ ≤ 0xC9F) at hhi
        rw [Source.At,BitVec.toNat_eq,BitVec.toNat_eq,shadow_hi_toNat,Counter.hi_toNat,
          Counter.lo_toNat]
        change _ = 0xB03+k.val+0x80 ∨ _ = 0xB03+k.val+0x180
        omega
      · rw [hrd,if_pos hi,if_neg hlo,if_pos hhi,select_eq _ _ k hk]
        rfl
    by_cases hev : hpmEvt addr = true
    · refine ⟨.reg (.mhpmevent k),?_,fun s r => ?_⟩
      · rw [hpmEvt,inRange_iff] at hev
        change 0x323 ≤ _ ∧ _ ≤ 0x33F at hev
        rw [Source.At,BitVec.toNat_eq,event_toNat]
        omega
      · rw [hrd,if_pos hi,if_neg hlo,if_neg hhi,if_pos hev,select_eq _ _ k hk]
        rfl
    · refine ⟨.const 0,.inr ⟨rfl,.inr (.inr ⟨h,fun ha => ?_⟩)⟩,fun s r => ?_⟩
      · have := ha.2
        simp only [Bool.or_eq_true,not_or] at hlo hhi
        simp [hpmAny,hlo,hhi,hev] at this
      · rw [hrd,if_pos hi,if_neg hlo,if_neg hhi,if_neg hev]
        rfl
  · refine ⟨.const 0,.inr ⟨rfl,.inr (.inr ⟨h,fun ha => hi ha.1⟩)⟩,fun s r => ?_⟩
    rw [hrd,if_neg hi]
    rfl

theorem reads (addr : Addr) : ∃ src, Reads addr src := by
  by_cases h : addr ∈ named
  · exact reads_named h
  · exact reads_unnamed h

/-! ### A write on a source -/

theorem Counter.lo_ge (c : Counter) : 0xB00 ≤ c.lo.toNat := by
  rw [lo_toNat]
  cases c <;> simp only <;> omega

theorem legalise_counter (seedRdata old v : Word) (c : Counter) :
    legalise seedRdata old c.lo v = v ∧ legalise seedRdata old c.hi v = v := by
  cases c with
  | mhpmcounter k => fin_cases k <;> exact ⟨rfl,rfl⟩
  | _ => exact ⟨rfl,rfl⟩

theorem legalise_const {addr : Addr} {w : Word} (h : (Source.const w).At addr)
    (hi : Implemented addr) (hr : ¬ReadOnly addr) (seedRdata old v : Word) :
    legalise seedRdata old addr v = w := by
  rcases h with ⟨rfl,rfl⟩ | ⟨rfl,rfl | h | ⟨hn,ha⟩⟩
  · rfl
  · rfl
  · exact absurd h hr
  · have hk := (known_iff addr).mpr hi
    rw [known,Bool.or_eq_true,List.contains_iff_mem] at hk
    have hany := hk.resolve_left hn
    have hidx : ¬(3 ≤ addr.toNat % 32 ∧ addr.toNat % 32 ≤ 8) := fun h =>
      ha ⟨(hpmImpl_iff addr).mpr h,hany⟩
    obtain ⟨base,hb,n,h3,h31,hbase⟩ := (hpmAny_iff addr).mp hany
    simp only [named,List.mem_cons,List.not_mem_nil,or_false,not_or] at hn
    simp only [ReadOnly,not_le] at hr
    simp only [legalise,hn,or_self,if_false]
    simp only [numbered,List.mem_cons,List.not_mem_nil,or_false] at hb
    rcases hb with rfl | rfl | rfl | rfl | rfl
    · rw [if_neg (by omega),if_pos (by omega)]
    · rw [if_neg (by omega),if_neg (by omega),if_pos (by omega)]
    · rw [if_neg (by omega),if_neg (by omega),if_neg (by omega),if_pos (by omega)]
    · omega
    · omega

theorem tick_reg (s : State) (i : In) (r : Reg) : r.value (tick s i) = r.value s := by
  cases r <;> rfl

theorem read_back (s : State) (i : In) (seedRdata : Word) {addr : Addr} (v : Word)
    {src : Source} (h : src.At addr) (hi : Implemented addr) (hr : ¬ReadOnly addr) :
    src.read (write (tick s i) addr v) seedRdata =
      legalise seedRdata (src.read s seedRdata) addr v := by
  rw [ReadOnly] at hr
  cases src with
  | reg r =>
    obtain rfl := h
    rw [Source.read,write_reg_self _ seedRdata,tick_reg]
    rfl
  | lo c =>
    have hc := c.lo_ge
    rcases h with rfl | rfl
    · rw [Source.read,write_value,if_pos rfl,low_setLo,(legalise_counter _ _ v c).1]
    · rw [shadow_lo_toNat] at hr
      omega
  | hi c =>
    have hc := c.lo_ge
    rcases h with rfl | rfl
    · rw [Source.read,write_value,if_neg (c.hi_ne_lo c),if_pos rfl,high_setHi,
        (legalise_counter _ _ v c).2]
    · rw [shadow_hi_toNat] at hr
      omega
  | seed =>
    obtain rfl := h
    rfl
  | const w => exact (legalise_const h hi hr seedRdata w v).symm

def Shadow (a b : Addr) : Prop := ∃ c : Counter, (a = c.lo ∨ a = c.hi) ∧ b = a+0x100

theorem read_other (t : State) (seedRdata : Word) {a b : Addr} (v : Word) {src : Source}
    (h : src.At b) (hne : b ≠ a) (hs : ¬Shadow a b) :
    src.read (write t a v) seedRdata = src.read t seedRdata := by
  cases src with
  | reg r => exact write_reg_other t v (h ▸ hne.symm)
  | lo c =>
    have ha : a ≠ c.lo := by
      rintro rfl
      exact h.elim hne fun h => hs ⟨c,.inl rfl,h⟩
    rw [Source.read,write_value,if_neg ha,apply_ite low,low_setHi,ite_self]
    rfl
  | hi c =>
    have ha : a ≠ c.hi := by
      rintro rfl
      exact h.elim hne fun h => hs ⟨c,.inr rfl,h⟩
    rw [Source.read,write_value,if_neg ha,apply_ite high,high_setLo,ite_self]
    rfl
  | seed => rfl
  | const w => rfl

def Counter.SeenAt (c : Counter) (b : Addr) : Prop := (Source.lo c).At b ∨ (Source.hi c).At b

theorem value_idle {s : State} {i : In} {c : Counter} (h : c.counts s i = false) :
    c.value (tick s i) = c.value s := by
  cases c with
  | mcycle =>
    simp only [Counter.counts,Bool.not_eq_false'] at h
    simp [Counter.value,tick,tickMcycle,h]
  | minstret =>
    have hb : (i.instretBump && !minstretWritten i.addr i.wen && !s.inhibitIrQ) = false := by
      simp only [Counter.counts] at h
      rw [Bool.and_right_comm,h,Bool.false_and]
    simp [Counter.value,tick,tickMinstret,hb]
  | mhpmcounter k =>
    simp only [Counter.counts,bne_eq_false_iff_eq] at h
    simp [Counter.value,tick,tickHpm,h]

theorem read_tick (s : State) (i : In) (seedRdata : Word) {b : Addr} {src : Source}
    (h : src.At b) : src.read (tick s i) seedRdata = src.read s seedRdata ∨
      ∃ c : Counter, c.counts s i = true ∧ c.SeenAt b := by
  cases src with
  | reg r => exact .inl (tick_reg s i r)
  | lo c =>
    cases hc : c.counts s i with
    | true => exact .inr ⟨c,hc,.inl h⟩
    | false => exact .inl (congrArg low (value_idle hc))
  | hi c =>
    cases hc : c.counts s i with
    | true => exact .inr ⟨c,hc,.inr h⟩
    | false => exact .inl (congrArg high (value_idle hc))
  | seed => exact .inl rfl
  | const w => exact .inl rfl

theorem doWrite_iff (addr : Addr) (wen : Bool) :
    doWrite addr wen = true ↔ illegal addr wen = false ∧ wen = true := by
  rw [doWrite,illegal,seedIllegal]
  cases wen <;> cases known addr <;> cases readOnly addr <;> simp

/-- For every state of the file and every CSR access, with no trap or MRET in the cycle:
when it is illegal, that an illegal one or one that only reads leaves everything to the
counters, what a write reads back as, and that every other address reads as the counters
leave it, which is as before but for those that count. -/
theorem access_rules (s : State) (seedRdata : Word) (a : Access) (i : In) :
    let j := a.onto s seedRdata i
    (illegal j.addr j.wen = true ↔ ¬Implemented a.addr ∨
      (a.writes = true ∧ ReadOnly a.addr) ∨ (a.addr = csrSeed ∧ a.writes = false)) ∧
    (illegal j.addr j.wen = true ∨ a.writes = false → next s j =
      {s with
        mcycleQ := tickMcycle s
        minstretQ := tickMinstret s j
        mhpmcounterQ := tickHpm s j}) ∧
    (illegal j.addr j.wen = false → a.writes = true → ∀ seed,
      rdata (next s j) seed a.addr =
        legalise seed (rdata s seed a.addr) a.addr (a.wdata s seedRdata) ∧
      ∀ b, b ≠ a.addr → ¬Shadow a.addr b →
        rdata (next s j) seed b = rdata (tick s j) seed b ∧
        (rdata (next s j) seed b = rdata s seed b ∨
          ∃ c : Counter, c.counts s j = true ∧ c.SeenAt b)) := by
  intro j
  refine ⟨illegal_iff a.addr a.writes,fun h => ?_,fun hl hw seed => ?_⟩
  · have hd : doWrite j.addr j.wen = false := by
      rw [← Bool.not_eq_true,doWrite_iff]
      rintro ⟨h1,h2⟩
      rcases h with h | h
      · rw [h] at h1
        cases h1
      · exact Bool.false_ne_true (h.symm.trans h2)
    rw [next,hd]
    rfl
  · have hi : Implemented a.addr ∧ ¬ReadOnly a.addr := by
      have := mt (illegal_iff a.addr a.writes).mpr (Bool.eq_false_iff.mp hl)
      simp only [not_or,not_and,not_not] at this
      exact ⟨this.1,this.2.1 hw⟩
    have hn : next s j = write (tick s j) a.addr (a.wdata s seedRdata) :=
      next_writing (by
        rw [writing,(doWrite_iff _ _).mpr ⟨hl,hw⟩]
        rfl)
    rw [hn]
    refine ⟨?_,fun b hb hs => ?_⟩
    · obtain ⟨src,hat,hrd⟩ := reads a.addr
      rw [hrd,hrd]
      exact read_back s j seed _ hat hi.1 hi.2
    · obtain ⟨src,hat,hrd⟩ := reads b
      rw [hrd,hrd,hrd,read_other _ _ _ hat hb hs]
      exact ⟨rfl,read_tick s j seed hat⟩

end Rvntt.Csr

namespace Rvntt.Ex

/-! ### The access EX makes -/

def csrAccess (x : Ex) : Csr.Access where
  addr := x.csrAddr
  op := if x.csrOp = 0b10 then .rs else if x.csrOp = 0b11 then .rc else .rw
  src := x.csrSrc
  srcNz := x.csrSrcNz

theorem csrWdata_eq (x : Ex) : x.csrWdata = x.csrAccess.wdata x.csr x.seedRdata := by
  rw [csrWdata,Csr.Access.wdata,csrAccess]
  split_ifs <;> rfl

theorem csrWen_eq {x : Ex} (hv : x.q.valid = true) (hd : Core.Decoded x.q)
    (hc : x.q.ctrl.isCsr = true) : x.csrWen = x.csrAccess.writes := by
  have ho : x.csrOp ≠ 0 := isCsr_csrOp (hd.ctrl ▸ hc)
  have hop : ∀ op : BitVec 2, op ≠ 0 →
      (op == 1) = ((if op = 2 then Csr.Op.rs else if op = 3 then .rc else .rw) == .rw) := by
    decide
  rw [csrWen,hv,hc,Csr.Access.writes,csrAccess]
  exact congrArg (· || x.csrSrcNz) (hop _ ho)

end Rvntt.Ex
