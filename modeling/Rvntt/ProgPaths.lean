import Mathlib.Algebra.Group.Nat.Defs
import Mathlib.Data.List.Nodup
import Mathlib.Logic.Relation
import Rvntt.Lib.Grown
import Rvntt.Pkg
import Rvntt.RandomProg
set_option autoImplicit false

/-!
The paths through a generated program, and what makes all of them safe.
-/

namespace Rvntt

namespace RandomProg

/-! ### Running a program -/

abbrev Regs := Reg → Word

def write (regs : Regs) (rd : Reg) (v : Word) : Regs :=
  if rd.val = 0 then regs else fun r => if r = rd then v else regs r

/-- Where the assembler puts the symbols, and the low part that `%pcrel_lo` adds. -/
structure Layout where
  addr : Symbol → Word
  lo : Symbol → Word

/-- The scratch area is aligned by its `.align 4` and does not wrap around. -/
def Layout.Placed (a : Layout) : Prop :=
  16 ∣ (a.addr .scratch).toNat ∧ (a.addr .scratch).toNat+scratchBytes ≤ 2^32

def LoadOp.width : LoadOp → Nat
  | lw => 4
  | lh | lhu => 2
  | lb | lbu => 1

def StoreOp.width : StoreOp → Nat
  | sw => 4
  | sh => 2
  | sb => 1

namespace Line

def rd : Line → Option Reg
  | pcrelHi rd _ | pcrelLo rd _ _ | rr _ rd _ _ | ri _ rd _ _ | un _ rd _ | upper _ rd _
  | load _ rd _ _ | jal rd _ => some rd
  | label _ | nop | store _ _ _ _ | branch _ _ _ _ | csrwMtvec _ | ecall => none

def uses : Line → Option Nat
  | branch _ _ _ l | jal _ l => some l
  | _ => none

def defines : Line → Option Nat
  | label l => some l
  | _ => none

def access : Line → Option (Reg × Nat × Nat)
  | load op _ off base => some (base,off,op.width)
  | store op _ off base => some (base,off,op.width)
  | _ => none

/-- The registers after a line. What is computed that is no address is left open. -/
def effect (a : Layout) (l : Line) (regs regs' : Regs) : Prop :=
  match l with
  | pcrelHi rd sym => regs' = write regs rd (a.addr sym-a.lo sym)
  | pcrelLo rd rs1 sym => regs' = write regs rd (regs rs1+a.lo sym)
  | ri .addi rd rs1 imm => regs' = write regs rd (regs rs1+BitVec.ofInt 32 imm)
  | l =>
    match l.rd with
    | some rd => ∃ v, regs' = write regs rd v
    | none => regs' = regs

end Line

/-- One line executed; a branch goes either way. -/
inductive Step (prog : List Line) (a : Layout) : Nat × Regs → Nat × Regs → Prop where
  | next {pc : Nat} {regs regs' : Regs} {l : Line} (hl : prog[pc]? = some l)
      (hj : ∀ rd n, l ≠ .jal rd n) (he : l ≠ .ecall) (h : l.effect a regs regs') :
      Step prog a (pc,regs) (pc+1,regs')
  | taken {pc t n : Nat} {regs regs' : Regs} {l : Line} (hl : prog[pc]? = some l)
      (hu : l.uses = some n) (ht : prog[t]? = some (.label n)) (h : l.effect a regs regs') :
      Step prog a (pc,regs) (t+1,regs')

def Path (prog : List Line) (a : Layout) (c : Nat × Regs) : Prop :=
  ∃ regs, Relation.ReflTransGen (Step prog a) (0,regs) c

def InScratch (a : Layout) (addr : Word) (width : Nat) : Prop :=
  (a.addr .scratch).toNat ≤ addr.toNat ∧
    addr.toNat+width ≤ (a.addr .scratch).toNat+scratchBytes ∧ width ∣ addr.toNat

def prologue : List Line :=
  [.pcrelHi baseReg .scratch,.nop,.nop,.nop,.pcrelLo baseReg baseReg .scratch,.nop,.nop,.nop]

structure Safe (prog : List Line) : Prop where
  /-- A label that is used is defined once, after every use. -/
  labels : ∀ (i : Nat) (l : Line) (n : Nat), prog[i]? = some l → l.uses = some n →
    prog.count (.label n) = 1 ∧ ∀ j, prog[j]? = some (.label n) → i < j
  base : ∀ l ∈ prog.drop prologue.length, l.rd ≠ some baseReg
  access : ∀ a : Layout, a.Placed → ∀ pc regs, Path prog a (pc,regs) →
    ∀ (l : Line) base off width, prog[pc]? = some l → l.access = some (base,off,width) →
      InScratch a (regs base+BitVec.ofNat 32 off) width
  /-- Execution goes on until the `ecall`, which is the last line. -/
  runs : ∀ a pc regs, Path prog a (pc,regs) →
    (prog[pc]? = some .ecall ∧ pc+1 = prog.length) ∨ ∃ c, Step prog a (pc,regs) c

/-! ### What may be emitted -/

def defs (out : List Line) : List Nat := out.filterMap Line.defines

def OffsetOk (off width : Nat) : Prop := off+width ≤ scratchBytes ∧ width ∣ off

/-- `base` has just been set to scratch and `k`, with no more than NOPs since. -/
def Aliased (before : List Line) (base : Reg) (k : Nat) : Prop :=
  ∃ pre m, before = pre ++ Line.ri .addi base baseReg k::List.replicate m .nop

structure Allowed (before : List Line) (l : Line) : Prop where
  base : prologue.length ≤ before.length → l.rd ≠ some baseReg
  fresh : ∀ n, l.uses = some n → n ∉ defs before
  access : ∀ base off width, l.access = some (base,off,width) →
    base = baseReg ∧ OffsetOk off width ∨
    base ≠ 0 ∧ base ≠ baseReg ∧ ∃ k, Aliased before base k ∧ OffsetOk (k+off) width

structure WellFormed (prog : List Line) : Prop where
  start : ∃ body, prog = prologue ++ body
  grown : Grown Allowed prog
  once : (defs prog).Nodup
  resolved : ∀ l ∈ prog, ∀ n, l.uses = some n → n ∈ defs prog
  stop : ∃ body, prog = body ++ [.ecall] ∧ .ecall ∉ body

theorem mem_defs {out : List Line} {n : Nat} : n ∈ defs out ↔ .label n ∈ out := by
  rw [defs,List.mem_filterMap]
  constructor
  · rintro ⟨l,hl,hd⟩
    cases l
    case label m =>
      cases hd
      exact hl
    all_goals cases hd
  · exact fun h => ⟨_,h,rfl⟩

theorem count_label (out : List Line) (n : Nat) : out.count (.label n) = (defs out).count n := by
  induction out with
  | nil => rfl
  | cons l out ih =>
    rw [defs,List.filterMap_cons]
    cases l
    case label m =>
      change _ = (m::defs out).count n
      rw [List.count_cons,List.count_cons,ih]
      simp
    all_goals
      rw [List.count_cons,ih,if_neg (by simp)]
      rfl

theorem write_self {regs : Regs} {rd : Reg} (h : rd ≠ 0) (v : Word) : write regs rd v rd = v := by
  have hval : ¬ rd.val = 0 := fun h0 => h (Fin.ext h0)
  rw [write,if_neg hval]
  exact if_pos rfl

theorem write_other {regs : Regs} {rd r : Reg} (h : rd ≠ r) (v : Word) :
    write regs rd v r = regs r := by
  rw [write]
  split
  · rfl
  · exact if_neg h.symm

theorem effect_other {a : Layout} {l : Line} {regs regs' : Regs} (h : l.effect a regs regs')
    {r : Reg} (hr : l.rd ≠ some r) : regs' r = regs r := by
  have hwrite : ∀ {rd : Reg} {v : Word}, some rd ≠ some r → write regs rd v r = regs r :=
    fun hne => write_other (fun heq => hne (congrArg some heq)) _
  unfold Line.effect at h
  split at h
  · rw [h]
    exact hwrite hr
  · rw [h]
    exact hwrite hr
  · rw [h]
    exact hwrite hr
  · split at h
    case h_1 hrd =>
      obtain ⟨v,hv⟩ := h
      rw [hv]
      exact hwrite (hrd ▸ hr)
    case h_2 => rw [h]

theorem aliased_concat {before : List Line} {l : Line} {b : Reg} {k : Nat}
    (h : Aliased (before ++ [l]) b k) :
    l = .ri .addi b baseReg k ∨ l = .nop ∧ Aliased before b k := by
  obtain ⟨pre,m,h⟩ := h
  cases m with
  | zero => exact .inl (List.singleton_inj.mp (List.append_inj_right' h rfl))
  | succ m =>
    rw [List.replicate_succ',← List.cons_append,← List.append_assoc] at h
    exact .inr ⟨List.singleton_inj.mp (List.append_inj_right' h rfl),
      pre,m,List.append_inj_left' h rfl⟩

namespace WellFormed

variable {prog : List Line} (hwf : WellFormed prog)

include hwf

theorem getElem_prologue {i : Nat} (hi : i < prologue.length) : prog[i]? = prologue[i]? := by
  obtain ⟨body,hbody⟩ := hwf.start
  rw [hbody,List.getElem?_append_left hi]

theorem rd_base {i : Nat} {l : Line} (hl : prog[i]? = some l) (h0 : i ≠ 0) (h4 : i ≠ 4) :
    l.rd ≠ some baseReg := by
  rcases Nat.lt_or_ge i prologue.length with hi | hi
  · have hnop : ∀ i < prologue.length, i ≠ 0 → i ≠ 4 → prologue[i]? = some .nop := by decide
    rw [hwf.getElem_prologue hi,hnop i hi h0 h4] at hl
    cases hl
    exact nofun
  · have hlt : i < prog.length := (List.getElem?_eq_some_iff.mp hl).1
    exact (hwf.grown i l hl).base (by rw [List.length_take];omega)

theorem not_prologue {i : Nat} {l : Line} (hl : prog[i]? = some l)
    (h : l.uses ≠ none ∨ (∃ b k, l = .ri .addi b baseReg k) ∨ l.access ≠ none) : prologue.length ≤ i := by
  by_contra hi
  have hnone : ∀ l ∈ prologue, l.uses = none ∧ l.access = none ∧ ∀ b k, l ≠ .ri .addi b baseReg k := by
    simp [prologue,Line.uses,Line.access]
  rw [hwf.getElem_prologue (by omega)] at hl
  obtain ⟨hu,ha,halias⟩ := hnone l (List.mem_of_getElem? hl)
  rcases h with h | ⟨b,k,h⟩ | h
  · exact h hu
  · exact halias b k h
  · exact h ha

theorem taken_later {i j n : Nat} {l : Line} (hi : prog[i]? = some l) (hu : l.uses = some n)
    (hj : prog[j]? = some (.label n)) : i < j := by
  refine hwf.grown.lt_of_not_mem (x := l) (y := .label n) ?_ hi hj ?_
  · exact fun before hA hmem => hA.fresh n hu (mem_defs.mpr hmem)
  · rintro rfl
    rw [hi] at hj
    cases hj
    cases hu

theorem ecall_last {i : Nat} {l : Line} (hl : prog[i]? = some l) : l = .ecall ↔ i+1 = prog.length := by
  obtain ⟨body,hbody,hnot⟩ := hwf.stop
  have hlt : i < prog.length := (List.getElem?_eq_some_iff.mp hl).1
  rw [hbody,List.length_append,List.length_singleton] at hlt ⊢
  rw [hbody] at hl
  constructor
  · rintro rfl
    by_contra hne
    rw [List.getElem?_append_left (by omega)] at hl
    exact hnot (List.mem_of_getElem? hl)
  · intro hi
    have : i = body.length := by omega
    rw [this,List.getElem?_concat_length] at hl
    exact (Option.some.inj hl).symm

end WellFormed

structure OnPath (prog : List Line) (a : Layout) (pc : Nat) (regs : Regs) : Prop where
  bound : pc < prog.length
  hi : 1 ≤ pc → pc ≤ 4 → regs baseReg = a.addr .scratch-a.lo .scratch
  base : 5 ≤ pc → regs baseReg = a.addr .scratch
  aliased : ∀ b k, b ≠ 0 → Aliased (prog.take pc) b k →
    regs b = a.addr .scratch+BitVec.ofNat 32 k

section

variable {prog : List Line} {a : Layout} (hwf : WellFormed prog)

include hwf

theorem onPath_start (regs : Regs) : OnPath prog a 0 regs where
  bound := by
    obtain ⟨body,hbody⟩ := hwf.start
    rw [hbody]
    exact Nat.succ_pos _
  hi h := absurd h (by decide)
  base h := absurd h (by decide)
  aliased b k _ h := by
    obtain ⟨pre,m,h⟩ := h
    exact absurd h.symm (by simp)

theorem onPath_next {pc : Nat} {regs regs' : Regs} {l : Line} (h : OnPath prog a pc regs)
    (hl : prog[pc]? = some l) (he : l ≠ .ecall) (hf : l.effect a regs regs') :
    OnPath prog a (pc+1) regs' where
  bound := by
    have := (hwf.ecall_last hl).not.mp he
    have := h.bound
    omega
  hi h1 h4 := by
    rcases Nat.eq_zero_or_pos pc with rfl | hpos
    · rw [hwf.getElem_prologue (by decide)] at hl
      cases hl
      rw [show regs' = write regs baseReg _ from hf]
      exact write_self (by decide) _
    · rw [effect_other hf (hwf.rd_base hl (by omega) (by omega))]
      exact h.hi hpos (by omega)
  base h5 := by
    rcases Nat.lt_or_eq_of_le h5 with hlt | heq
    · rw [effect_other hf (hwf.rd_base hl (by omega) (by omega))]
      exact h.base (by omega)
    · have hpc : pc = 4 := by omega
      subst hpc
      have hhi := h.hi (by decide) (by decide)
      rw [hwf.getElem_prologue (by decide)] at hl
      cases hl
      rw [show regs' = write regs baseReg (regs baseReg+a.lo .scratch) from hf,hhi,
        BitVec.sub_add_cancel]
      exact write_self (by decide) _
  aliased b k hb hal := by
    rw [List.take_add_one,hl] at hal
    rcases aliased_concat hal with rfl | ⟨rfl,hal'⟩
    · have hpos := hwf.not_prologue hl (.inr (.inl ⟨b,k,rfl⟩))
      rw [show regs' = write regs b (regs baseReg+BitVec.ofInt 32 k) from hf,
        h.base (by change 8 ≤ pc at hpos;omega),BitVec.ofInt_natCast]
      exact write_self hb _
    · rw [show regs' = regs from hf]
      exact h.aliased b k hb hal'

theorem onPath_taken {pc t n : Nat} {regs regs' : Regs} {l : Line} (h : OnPath prog a pc regs)
    (hl : prog[pc]? = some l) (hu : l.uses = some n) (ht : prog[t]? = some (.label n))
    (hf : l.effect a regs regs') : OnPath prog a (t+1) regs' := by
  have hpos : 8 ≤ pc := hwf.not_prologue hl (.inl (by rw [hu];exact nofun))
  have hlt := hwf.taken_later hl hu ht
  have hbase : regs' baseReg = a.addr .scratch := by
    rw [effect_other hf (hwf.rd_base hl (by omega) (by omega))]
    exact h.base (by omega)
  refine ⟨?_,fun _ _ => by omega,fun _ => hbase,fun b k _ hal => ?_⟩
  · have hbound : t < prog.length := (List.getElem?_eq_some_iff.mp ht).1
    have := (hwf.ecall_last ht).not.mp nofun
    omega
  · -- behind a label no alias is alive
    rw [List.take_add_one,ht] at hal
    rcases aliased_concat hal with hal | ⟨hal,_⟩
    all_goals cases hal

theorem onPath {pc : Nat} {regs : Regs} (h : Path prog a (pc,regs)) : OnPath prog a pc regs := by
  obtain ⟨regs0,h⟩ := h
  generalize hc : (pc,regs) = c at h
  induction h generalizing pc regs with
  | refl =>
    cases hc
    exact onPath_start hwf regs0
  | @tail c c' _ hstep ih =>
    cases hc
    cases hstep with
    | next hl _ he hf => exact onPath_next hwf (ih rfl) hl he hf
    | taken hl hu ht hf => exact onPath_taken hwf (ih rfl) hl hu ht hf

/-! ### Safety -/

theorem safe_labels {i n : Nat} {l : Line} (hl : prog[i]? = some l) (hu : l.uses = some n) :
    prog.count (.label n) = 1 ∧ ∀ j, prog[j]? = some (.label n) → i < j := by
  refine ⟨?_,fun j hj => hwf.taken_later hl hu hj⟩
  rw [count_label]
  exact List.count_eq_one_of_mem hwf.once (hwf.resolved l (List.mem_of_getElem? hl) n hu)

theorem safe_base : ∀ l ∈ prog.drop prologue.length, l.rd ≠ some baseReg := by
  intro l hl
  obtain ⟨i,hi⟩ := List.mem_iff_getElem?.mp hl
  rw [List.getElem?_drop] at hi
  have h8 : prologue.length = 8 := rfl
  exact hwf.rd_base hi (by omega) (by omega)

omit hwf in
theorem width_dvd {l : Line} {b : Reg} {off width : Nat} (h : l.access = some (b,off,width)) :
    width ∣ 16 := by
  cases l
  case load op _ _ _ =>
    cases h
    cases op
    all_goals decide
  case store op _ _ _ =>
    cases h
    cases op
    all_goals decide
  all_goals cases h

omit hwf in
theorem inScratch (ha : a.Placed) {off width : Nat} (hoff : OffsetOk off width) (hw : width ∣ 16) :
    InScratch a (a.addr .scratch+BitVec.ofNat 32 off) width := by
  obtain ⟨halign,hend⟩ := ha
  obtain ⟨hle,hdvd⟩ := hoff
  have hpos : 0 < width := Nat.pos_of_dvd_of_pos hw (by decide)
  have hlt : off < 2^32 := by
    have : scratchBytes = 256 := rfl
    omega
  have hval : (a.addr .scratch+BitVec.ofNat 32 off).toNat = (a.addr .scratch).toNat+off := by
    rw [BitVec.toNat_add,BitVec.toNat_ofNat,Nat.mod_eq_of_lt hlt,Nat.mod_eq_of_lt (by omega)]
  rw [InScratch,hval]
  exact ⟨by omega,by omega,Nat.dvd_add (Nat.dvd_trans hw halign) hdvd⟩

theorem safe_access (ha : a.Placed) {pc : Nat} {regs : Regs} (hp : Path prog a (pc,regs)) {l : Line}
    {b : Reg} {off width : Nat} (hl : prog[pc]? = some l) (hacc : l.access = some (b,off,width)) :
    InScratch a (regs b+BitVec.ofNat 32 off) width := by
  have hon := onPath hwf hp
  have hpos : 8 ≤ pc := hwf.not_prologue hl (.inr (.inr (by rw [hacc];exact nofun)))
  have hw := width_dvd hacc
  rcases (hwf.grown pc l hl).access b off width hacc with ⟨rfl,hoff⟩ | ⟨hb,_,k,hal,hoff⟩
  · rw [hon.base (by omega)]
    exact inScratch ha hoff hw
  · rw [hon.aliased b k hb hal,BitVec.add_assoc,← BitVec.ofNat_add]
    exact inScratch ha hoff hw

omit hwf in
theorem effect_exists (a : Layout) (l : Line) (regs : Regs) : ∃ regs', l.effect a regs regs' := by
  unfold Line.effect
  split
  · exact ⟨_,rfl⟩
  · exact ⟨_,rfl⟩
  · exact ⟨_,rfl⟩
  · split
    case h_1 => exact ⟨_,0,rfl⟩
    case h_2 => exact ⟨_,rfl⟩

theorem safe_runs {pc : Nat} {regs : Regs} (hp : Path prog a (pc,regs)) :
    (prog[pc]? = some .ecall ∧ pc+1 = prog.length) ∨ ∃ c, Step prog a (pc,regs) c := by
  have hlt := (onPath hwf hp).bound
  have hl : prog[pc]? = some prog[pc] := List.getElem?_eq_getElem hlt
  generalize prog[pc] = l at hl
  obtain ⟨regs',hf⟩ := effect_exists a l regs
  by_cases he : l = .ecall
  · subst he
    exact .inl ⟨hl,(hwf.ecall_last hl).mp rfl⟩
  · right
    cases hu : l.uses with
    | none =>
      refine ⟨_,.next hl ?_ he hf⟩
      rintro rd n rfl
      cases hu
    | some n =>
      obtain ⟨t,ht⟩ := List.mem_iff_getElem?.mp
        (mem_defs.mp (hwf.resolved l (List.mem_of_getElem? hl) n hu))
      exact ⟨_,.taken hl hu ht hf⟩

theorem WellFormed.safe : Safe prog where
  labels _ _ _ hl hu := safe_labels hwf hl hu
  base := safe_base hwf
  access _ ha _ _ hp _ _ _ _ hl hacc := safe_access hwf ha hp hl hacc
  runs _ _ _ hp := safe_runs hwf hp

end

end RandomProg

end Rvntt
