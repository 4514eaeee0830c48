import Mathlib.Tactic.FinCases
import Rvntt.Csr
import Rvntt.Lib.Bits
import Rvntt.Lib.Clocked
set_option autoImplicit false

/-!
The counters of `rvntt_csr` on their own: the event masks against the mux they
replace, and writes of half a counter.
-/

namespace Rvntt.Csr

def machine : Clocked.Machine State In := ⟨{},next⟩

abbrev run (x : Nat → In) (t : Nat) : State := machine.run x t

/-! ### The mux -/

def eventBit (ev : BitVec 4) (bus : BitVec 6) : Bool :=
  ev != hpmEvNone && ev.ule hpmEvMax && bus.getLsbD (ev-1).toNat

/-- A counter's increment decided by its selector and its inhibit bit. -/
def tickHpmMux (s : State) (i : In) : Fin 6 → BitVec 64 := fun k =>
  if !s.inhibitHpmQ.getLsbD k.val && eventBit (s.mhpmeventQ k) i.hpmEvent &&
      !(hpmWritten i.addr i.wen && hpmSel i.addr == BitVec.ofNat 3 k.val) then
    s.mhpmcounterQ k+1
  else s.mhpmcounterQ k

/-- The file with the muxes in front of the counters. -/
def nextMux (s : State) (i : In) : State :=
  settle {tick s i with mhpmcounterQ := tickHpmMux s i} i

def muxMachine : Clocked.Machine State In := ⟨{},nextMux⟩

theorem hpmMask_and : ∀ (ev : BitVec 4) (inhibit : Bool) (bus : BitVec 6),
    decide (hpmMask ev inhibit &&& bus ≠ 0) = (!inhibit && eventBit ev bus) := by
  decide +kernel

theorem tickHpm_eq {s : State} (i : In) (h : WatchOk s) : tickHpm s i = tickHpmMux s i := by
  funext k
  have hm := hpmMask_and (s.mhpmeventQ k) (s.inhibitHpmQ.getLsbD k.val) i.hpmEvent
  rw [← h k] at hm
  rw [tickHpm,tickHpmMux,← hm]
  congr 1
  simp only [Bool.and_eq_true,decide_eq_true_eq,Bool.not_eq_true',Bool.and_eq_false_iff,
    beq_eq_false_iff_ne,not_and_or,Bool.not_eq_true]

theorem next_eq_mux {s : State} (i : In) (h : WatchOk s) : next s i = nextMux s i := by
  rw [nextMux,← tickHpm_eq i h]
  rfl

theorem watchOk_run (x : Nat → In) (t : Nat) : WatchOk (run x t) :=
  machine.invariant WatchOk watchOk_reset (fun _ i h => watchOk_next i h) x t

/-- In every run the registered masks are what the selectors and the inhibit bits say, and
the file does what it would do with the muxes. -/
theorem watch_is_mux (x : Nat → In) (t : Nat) :
    (∀ k, (run x t).hpmWatchQ k =
      hpmMask ((run x t).mhpmeventQ k) ((run x t).inhibitHpmQ.getLsbD k.val)) ∧
    run x t = muxMachine.run x t := by
  refine ⟨watchOk_run x t,?_⟩
  induction t with
  | zero => rw [run,Clocked.Machine.run_zero,Clocked.Machine.run_zero,machine,muxMachine]
  | succ t ih =>
    rw [run,Clocked.Machine.run_succ,Clocked.Machine.run_succ,← ih]
    exact next_eq_mux (x t) (watchOk_run x t)

/-! ### Half writes -/

inductive Counter where
  | mcycle
  | minstret
  | mhpmcounter (k : Fin 6)
  deriving DecidableEq, Repr

namespace Counter

def lo : Counter → Addr
  | mcycle => csrMcycle
  | minstret => csrMinstret
  | mhpmcounter k => 0xB03+BitVec.ofNat 12 k.val

def hi (c : Counter) : Addr := c.lo+0x80

def value (s : State) : Counter → BitVec 64
  | mcycle => s.mcycleQ
  | minstret => s.minstretQ
  | mhpmcounter k => s.mhpmcounterQ k

def counts (s : State) (i : In) : Counter → Bool
  | mcycle => !s.inhibitCyQ
  | minstret => i.instretBump && !s.inhibitIrQ
  | mhpmcounter k => s.hpmWatchQ k &&& i.hpmEvent != 0

end Counter

def low (c : BitVec 64) : Word := c.extractLsb' 0 32
def high (c : BitVec 64) : Word := c.extractLsb' 32 32

structure Independent (s : State) (i : In) (c : Counter) : Prop where
  lo : i.addr = c.lo →
    low (c.value (next s i)) = i.wdata ∧ high (c.value (next s i)) = high (c.value s)
  hi : i.addr = c.hi →
    high (c.value (next s i)) = i.wdata ∧
      (low (c.value (next s i)) = low (c.value s) ∨
        (c.counts s i = true ∧ low (c.value (next s i)) = low (c.value s)+1))

/-- `mcycle` counts on the edge that writes its low half, and the count carries. -/
def Carries (s : State) (i : In) (c : Counter) : Prop :=
  c = .mcycle ∧ i.addr = csrMcycle ∧ s.inhibitCyQ = false ∧ low s.mcycleQ = 0xFFFFFFFF

theorem low_toNat (c : BitVec 64) : (low c).toNat = c.toNat % 2^32 := by
  rw [low,BitVec.extractLsb'_toNat,Nat.shiftRight_zero]

theorem high_toNat (c : BitVec 64) : (high c).toNat = c.toNat/2^32 := by
  have hlt := c.isLt
  rw [high,BitVec.extractLsb'_toNat,Nat.shiftRight_eq_div_pow,Nat.mod_eq_of_lt (by omega)]

@[simp] theorem low_append (h l : Word) : low (h ++ l) = l := by
  have hl := l.isLt
  refine BitVec.eq_of_toNat_eq ?_
  rw [low_toNat,Bits.append_toNat]
  omega

@[simp] theorem high_append (h l : Word) : high (h ++ l) = h := by
  have hl := l.isLt
  refine BitVec.eq_of_toNat_eq ?_
  rw [high_toNat,Bits.append_toNat]
  omega

@[simp] theorem low_setLo (c : BitVec 64) (v : Word) : low (setLo c v) = v := low_append _ _
@[simp] theorem high_setLo (c : BitVec 64) (v : Word) : high (setLo c v) = high c :=
  high_append _ _
@[simp] theorem low_setHi (c : BitVec 64) (v : Word) : low (setHi c v) = low c := low_append _ _
@[simp] theorem high_setHi (c : BitVec 64) (v : Word) : high (setHi c v) = v := high_append _ _

theorem high_add_one_iff (c : BitVec 64) : high (c+1) = high c ↔ low c ≠ 0xFFFFFFFF := by
  have hlt := c.isLt
  rw [ne_eq,BitVec.toNat_eq,BitVec.toNat_eq,high_toNat,high_toNat,low_toNat,BitVec.toNat_add]
  change (c.toNat+1) % 2^64/2^32 = _ ↔ ¬_ = 0xFFFFFFFF
  omega

theorem low_add_one (c : BitVec 64) : low (c+1) = low c+1 := by
  refine BitVec.eq_of_toNat_eq ?_
  rw [low_toNat,BitVec.toNat_add,BitVec.toNat_add,low_toNat]
  change (c.toNat+1) % 2^64 % 2^32 = (c.toNat % 2^32+1) % 2^32
  omega

/-! ### The address ranges -/

theorem hpmIdx_toNat (addr : Addr) : (hpmIdx addr).toNat = addr.toNat % 32 := by
  rw [hpmIdx,BitVec.extractLsb'_toNat,Nat.shiftRight_zero]

theorem hpmImpl_iff (addr : Addr) :
    hpmImpl addr = true ↔ 3 ≤ addr.toNat % 32 ∧ addr.toNat % 32 ≤ 8 := by
  rw [hpmImpl,Bool.and_eq_true,BitVec.ule_iff_le,BitVec.ule_iff_le,BitVec.le_def,BitVec.le_def,
    hpmIdx_toNat]
  rfl

theorem inRange_iff (lo hi addr : Addr) :
    inRange lo hi addr = true ↔ lo.toNat ≤ addr.toNat ∧ addr.toNat ≤ hi.toNat := by
  rw [inRange,Bool.and_eq_true,BitVec.ule_iff_le,BitVec.ule_iff_le,BitVec.le_def,BitVec.le_def]

theorem hpmSel_toNat {addr : Addr} (h : hpmImpl addr = true) :
    (hpmSel addr).toNat = addr.toNat % 32-3 := by
  rw [hpmImpl_iff] at h
  rw [hpmSel,BitVec.toNat_sub,BitVec.extractLsb'_toNat,hpmIdx_toNat,Nat.shiftRight_zero]
  change (2^3-3+addr.toNat % 32 % 2^3) % 2^3 = _
  omega

theorem select_eq {α : Type} (f : Fin 6 → α) (d : α) {i : BitVec 3} (k : Fin 6)
    (h : i.toNat = k.val) : select f d i = f k := by
  have hk : i.toNat < 6 := h ▸ k.isLt
  rw [select,dif_pos hk]
  exact congrArg f (Fin.ext h)

/-! ### The three counters under a write -/

namespace Counter

theorem lo_toNat (c : Counter) : c.lo.toNat =
    match c with
    | mcycle => 0xB00
    | minstret => 0xB02
    | mhpmcounter k => 0xB03+k.val := by
  cases c with
  | mcycle => rfl
  | minstret => rfl
  | mhpmcounter k => revert k; decide

theorem hi_toNat (c : Counter) : c.hi.toNat = c.lo.toNat+0x80 := by
  cases c with
  | mcycle => rfl
  | minstret => rfl
  | mhpmcounter k => revert k; decide

end Counter

theorem write_mcycle (t : State) (addr : Addr) (v : Word) : (write t addr v).mcycleQ =
    if addr = csrMcycle then setLo t.mcycleQ v
    else if addr = csrMcycleh then setHi t.mcycleQ v
    else t.mcycleQ := by
  split_ifs with h1 h2
  · rw [h1]; rfl
  · rw [h2]; rfl
  · unfold write
    rw [if_neg h1,if_neg h2]
    simp only [apply_ite State.mcycleQ,ite_self]

theorem write_minstret (t : State) (addr : Addr) (v : Word) : (write t addr v).minstretQ =
    if addr = csrMinstret then setLo t.minstretQ v
    else if addr = csrMinstreth then setHi t.minstretQ v
    else t.minstretQ := by
  split_ifs with h1 h2
  · rw [h1]; rfl
  · rw [h2]; rfl
  · exact (write_minstret_other t v h1 h2).eq

theorem write_hpm (t : State) (addr : Addr) (v : Word) (k : Fin 6) :
    (write t addr v).mhpmcounterQ k =
      if addr = (Counter.mhpmcounter k).lo then setLo (t.mhpmcounterQ k) v
      else if addr = (Counter.mhpmcounter k).hi then setHi (t.mhpmcounterQ k) v
      else t.mhpmcounterQ k := by
  split_ifs with h1 h2
  · subst h1
    fin_cases k <;> rfl
  · subst h2
    fin_cases k <;> rfl
  · rw [BitVec.toNat_eq,Counter.lo_toNat] at h1
    rw [BitVec.toNat_eq,Counter.hi_toNat,Counter.lo_toNat] at h2
    simp only at h1 h2
    have hlo : hpmImpl addr = true → hpmMlo addr = true → k.val ≠ (hpmSel addr).toNat := by
      intro hi hm
      rw [hpmSel_toNat hi]
      rw [hpmMlo,inRange_iff] at hm
      change 0xB03 ≤ addr.toNat ∧ addr.toNat ≤ 0xB1F at hm
      rw [hpmImpl_iff] at hi
      omega
    have hhi : hpmImpl addr = true → hpmMhi addr = true → k.val ≠ (hpmSel addr).toNat := by
      intro hi hm
      rw [hpmSel_toNat hi]
      rw [hpmMhi,inRange_iff] at hm
      change 0xB83 ≤ addr.toNat ∧ addr.toNat ≤ 0xB9F at hm
      rw [hpmImpl_iff] at hi
      omega
    unfold write
    simp only [apply_ite State.mhpmcounterQ,apply_ite (fun f : Fin 6 → BitVec 64 => f k),ite_self]
    simp only [update]
    by_cases hi : hpmImpl addr = true
    · by_cases hm : hpmMlo addr = true
      · simp [hi,hm,hlo hi hm]
      · by_cases hm' : hpmMhi addr = true
        · simp [hi,hm,hm',hhi hi hm']
        · simp [hi,hm,hm']
    · simp [hi]

theorem write_value (t : State) (addr : Addr) (v : Word) (c : Counter) :
    c.value (write t addr v) =
      if addr = c.lo then setLo (c.value t) v
      else if addr = c.hi then setHi (c.value t) v
      else c.value t := by
  cases c with
  | mcycle => exact write_mcycle t addr v
  | minstret => exact write_minstret t addr v
  | mhpmcounter k => exact write_hpm t addr v k

theorem Counter.hi_ne_lo (c d : Counter) : c.hi ≠ d.lo := by
  rw [ne_eq,BitVec.toNat_eq,hi_toNat,lo_toNat c,lo_toNat d]
  cases c <;> cases d <;> simp only <;> omega

/-- `mcycle` counts on the edge that writes it; the other counters do not. -/
theorem value_tick {s : State} {i : In} (hw : writing i = true) {c : Counter}
    (ha : i.addr = c.lo ∨ i.addr = c.hi) : c.value (tick s i) =
      if c = .mcycle ∧ s.inhibitCyQ = false then c.value s+1 else c.value s := by
  have hd : doWrite i.addr i.wen = true := by
    simp only [writing,Bool.and_eq_true] at hw
    exact hw.2
  cases c with
  | mcycle =>
    change tickMcycle s = _
    rw [tickMcycle]
    cases s.inhibitCyQ <;> simp [Counter.value]
  | minstret =>
    have hm : minstretWritten i.addr i.wen = true := by
      rw [minstretWritten,hd]
      rcases ha with h | h <;> rw [h] <;> rfl
    change tickMinstret s i = _
    rw [tickMinstret,hm,if_neg (by simp),if_neg (by simp)]
    rfl
  | mhpmcounter k =>
    have hm : hpmWritten i.addr i.wen = true ∧ hpmSel i.addr = BitVec.ofNat 3 k.val := by
      rw [hpmWritten,hd]
      rcases ha with h | h
      · rw [h]; fin_cases k <;> decide
      · rw [h]; fin_cases k <;> decide
    change tickHpm s i k = _
    rw [tickHpm,if_neg fun h => h.2 hm,if_neg (by simp)]
    rfl

/-- The halves of a counter are independent in every write but one: a write of the low
half of `mcycle` on the edge on which it counts over. -/
theorem independent_iff {s : State} {i : In} (hw : writing i = true) (c : Counter) :
    Independent s i c ↔ ¬Carries s i c := by
  have hn := write_value (tick s i) i.addr i.wdata c
  rw [← next_writing hw] at hn
  constructor
  · rintro h ⟨rfl,ha,hc,hl⟩
    change i.addr = Counter.mcycle.lo at ha
    have hv := value_tick (s := s) hw (c := .mcycle) (.inl ha)
    rw [if_pos ⟨rfl,hc⟩] at hv
    have := (h.lo ha).2
    rw [hn,if_pos ha,high_setLo,hv] at this
    exact (high_add_one_iff _).mp this hl
  · intro h
    refine ⟨fun ha => ?_,fun ha => ?_⟩
    · rw [hn,if_pos ha,low_setLo,high_setLo,value_tick hw (.inl ha)]
      refine ⟨rfl,?_⟩
      split
      · rename_i hc
        exact (high_add_one_iff _).mpr fun hl => h ⟨hc.1,by rw [ha,hc.1]; rfl,hc.2,by
          rw [← hl,hc.1]; rfl⟩
      · rfl
    · have hne : i.addr ≠ c.lo := by rw [ha]; exact c.hi_ne_lo c
      rw [hn,if_neg hne,if_pos ha,low_setHi,high_setHi,value_tick hw (.inr ha)]
      refine ⟨rfl,?_⟩
      split
      · rename_i hc
        refine .inr ⟨?_,low_add_one _⟩
        rw [hc.1,Counter.counts,hc.2]
        rfl
      · exact .inl rfl

def writeIn (addr : Addr) (v : Word) : In where
  addr := addr
  wen := true
  wdata := v
  instretBump := true
  hpmEvent := 0
  trapEn := false
  trapPc := 0
  trapCause := 0
  trapVal := 0
  mretEn := false

theorem independent_mcycleh :
    Independent {mcycleQ := 0xFFFFFFFF} (writeIn csrMcycleh 0) .mcycle :=
  (independent_iff (by decide) .mcycle).mpr fun h => absurd h.2.1 (by decide)

def twoWrites (t : Nat) : In := writeIn csrMcycle (if t = 0 then 0xFFFFFFFF else 0)

/-- The second write leaves a one in the high half. -/
theorem not_independent :
    writing (twoWrites 1) = true ∧ ¬Independent (run twoWrites 1) (twoWrites 1) .mcycle :=
  ⟨by decide,fun h => absurd (h.lo rfl).2 (by decide +kernel)⟩

end Rvntt.Csr
