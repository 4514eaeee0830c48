import Mathlib.Data.List.Perm.Basic
import Rvntt.Lib.Triple
import Rvntt.ProgPaths
set_option autoImplicit false

/-!
Every program the generator emits is well formed, whatever it draws.
-/

namespace Rvntt

namespace RandomProg

/-! ### Lines and labels -/

theorem allowed_inert {before : List Line} {l : Line}
    (hrd : prologue.length ≤ before.length → l.rd ≠ some baseReg) (hu : l.uses = none)
    (ha : l.access = none) : Allowed before l where
  base := hrd
  fresh n hn := by
    rw [hu] at hn
    cases hn
  access b off width hacc := by
    rw [ha] at hacc
    cases hacc

/-- A line that may stand anywhere: no label, no branch, no access, and another destination
than the base register. -/
structure Plain (l : Line) : Prop where
  rd : l.rd ≠ some baseReg
  uses : l.uses = none
  defines : l.defines = none
  access : l.access = none
  goes : l ≠ .ecall

theorem Plain.allowed {l : Line} (h : Plain l) (before : List Line) : Allowed before l :=
  allowed_inert (fun _ => h.rd) h.uses h.access

theorem plain_nop : Plain .nop := ⟨nofun,rfl,rfl,rfl,nofun⟩

theorem label_allowed (before : List Line) (n : Nat) : Allowed before (.label n) :=
  allowed_inert (fun _ => nofun) rfl rfl

theorem defs_append (a b : List Line) : defs (a ++ b) = defs a ++ defs b := List.filterMap_append

theorem defs_labels (ns : List Nat) : defs (ns.map .label) = ns := by
  induction ns with
  | nil => rfl
  | cons n ns ih => exact congrArg (n::·) ih

theorem defs_single {l : Line} (h : l.defines = none) : defs [l] = [] := by
  rw [defs,List.filterMap_cons_none h]
  rfl

namespace State

def labels (s : State) : List Nat := defs s.out ++ s.pendingLabels.map Prod.snd

def due (s : State) : List Nat :=
  if s.labelHold then [] else (s.pendingLabels.filter fun p => p.1 ≤ s.idx).map Prod.snd

theorem emit_out (s : State) (l : Line) : (s.emit l).out = s.out ++ s.due.map .label ++ [l] := rfl

theorem due_subset {s : State} {n : Nat} (h : n ∈ s.due) : n ∈ s.pendingLabels.map Prod.snd := by
  unfold due at h
  split at h
  · cases h
  · obtain ⟨p,hp,rfl⟩ := List.mem_map.mp h
    exact List.mem_map_of_mem (List.mem_filter.mp hp).1

theorem due_perm {s : State} (h : (s.pendingLabels.map Prod.snd).Nodup) :
    (s.due ++ (s.pendingLabels.filter fun p => p.2 ∉ s.due).map Prod.snd).Perm
      (s.pendingLabels.map Prod.snd) := by
  unfold due
  split
  · simp
  · have hsame : (s.pendingLabels.filter fun p =>
        p.2 ∉ (s.pendingLabels.filter fun p => p.1 ≤ s.idx).map Prod.snd) =
        s.pendingLabels.filter fun p => !decide (p.1 ≤ s.idx) := by
      apply List.filter_congr
      intro p hp
      have hiff : p.2 ∈ (s.pendingLabels.filter fun p => p.1 ≤ s.idx).map Prod.snd ↔ p.1 ≤ s.idx := by
        constructor
        · intro hmem
          obtain ⟨q,hq,heq⟩ := List.mem_map.mp hmem
          obtain ⟨hq,hle⟩ := List.mem_filter.mp hq
          rw [List.inj_on_of_nodup_map h hp hq heq.symm]
          exact of_decide_eq_true hle
        · intro hle
          exact List.mem_map_of_mem (List.mem_filter.mpr ⟨hp,decide_eq_true hle⟩)
      rw [decide_not,decide_eq_decide.mpr hiff]
    rw [hsame,← List.map_append]
    exact (List.filter_append_perm _ _).map _

theorem emit_labels {s : State} (h : s.labels.Nodup) {l : Line} (hl : l.defines = none) :
    (s.emit l).labels.Perm s.labels := by
  have hp := due_perm (List.Nodup.of_append_right h)
  have hout : defs (s.emit l).out = defs s.out ++ s.due := by
    rw [emit_out,defs_append,defs_append,defs_labels,defs_single hl,List.append_nil]
  rw [labels,labels,hout,List.append_assoc]
  exact hp.append_left _

end State

/-! ### The invariant -/

structure Inv (s : State) : Prop where
  start : ∃ body, s.out = prologue ++ body
  grown : Grown Allowed s.out
  goes : .ecall ∉ s.out
  nodup : s.labels.Nodup
  bound : ∀ n ∈ s.labels, n ≤ s.labelN
  used : ∀ l ∈ s.out, ∀ n, l.uses = some n → n ∈ s.labels
  written : ∀ p ∈ s.lastWrite, p.2 < s.idx

namespace Inv

variable {s : State} (h : Inv s)

include h

theorem drawn (k : Nat) : Inv { s with drawn := k } :=
  ⟨h.start,h.grown,h.goes,h.nodup,h.bound,h.used,h.written⟩

theorem hold (b : Bool) : Inv { s with labelHold := b } :=
  ⟨h.start,h.grown,h.goes,h.nodup,h.bound,h.used,h.written⟩

theorem emit {l : Line} (hd : l.defines = none) (he : l ≠ .ecall)
    (hu : ∀ n, l.uses = some n → n ∈ s.labels) (hok : Allowed (s.out ++ s.due.map .label) l) :
    Inv (s.emit l) := by
  have hperm := State.emit_labels h.nodup hd
  refine ⟨?_,?_,?_,hperm.nodup_iff.mpr h.nodup,?_,?_,?_⟩
  · obtain ⟨body,hbody⟩ := h.start
    exact ⟨body ++ s.due.map .label ++ [l],by simp [State.emit_out,hbody]⟩
  · refine (h.grown.append fun before x hx => ?_).snoc hok
    obtain ⟨n,_,rfl⟩ := List.mem_map.mp hx
    exact label_allowed before n
  · rw [State.emit_out]
    simp [h.goes,he.symm]
  · intro n hn
    exact h.bound n (hperm.mem_iff.mp hn)
  · intro x hx n hxn
    rw [State.emit_out,List.mem_append,List.mem_append,List.mem_singleton] at hx
    refine hperm.mem_iff.mpr ?_
    rcases hx with (hx | hx) | rfl
    · exact h.used x hx n hxn
    · obtain ⟨m,_,rfl⟩ := List.mem_map.mp hx
      cases hxn
    · exact hu n hxn
  · intro p hp
    have := h.written p hp
    change p.2 < ((s.idx+1 : Nat) : Int)
    omega

theorem plain {l : Line} (hl : Plain l) : Inv (s.emit l) :=
  h.emit hl.defines hl.goes (fun _ hn => nomatch hl.uses.symm.trans hn) (hl.allowed _)

theorem wrote (rd : Reg) (isLoad : Bool) : Inv (s.wrote rd isLoad) := by
  unfold State.wrote
  split
  · refine ⟨h.start,h.grown,h.goes,h.nodup,h.bound,h.used,?_⟩
    intro p hp
    change p ∈ dictSet s.lastWrite rd (s.idx-1) at hp
    change p.2 < (s.idx : Int)
    unfold dictSet at hp
    split at hp
    · obtain ⟨q,hq,rfl⟩ := List.mem_map.mp hp
      split
      · change (s.idx : Int)-1 < s.idx
        omega
      · exact h.written q hq
    · rcases List.mem_append.mp hp with hp | hp
      · exact h.written p hp
      · cases List.mem_singleton.mp hp
        omega
  · exact h

end Inv

/-! ### Padding -/

theorem nops_drawn (n k : Nat) (s : State) :
    { State.nops n s with drawn := k } = State.nops n { s with drawn := k } := by
  induction n generalizing s with
  | zero => rfl
  | succ n ih => exact ih s.nop

theorem nops_add (m n : Nat) (s : State) :
    State.nops m (State.nops n s) = State.nops (n+m) s := by
  induction n generalizing s with
  | zero => rw [Nat.zero_add];rfl
  | succ n ih =>
    rw [Nat.succ_add]
    exact ih s.nop

section

variable {F : Type} [LE F] [DecidableLE F] (g : Gen F)

theorem padState_eq (s : State) (regs : List Reg) :
    ∃ k m, m ≤ Gen.slack s regs ∧ g.padState s regs = State.nops m { s with drawn := k } := by
  fun_induction g.padState s regs with
  | case1 s k h => exact ⟨k,0,Nat.zero_le _,rfl⟩
  | case2 s need drawn h ih =>
    obtain ⟨k,m,hm,heq⟩ := ih
    have hle := g.padNeed_le s regs (0,s.drawn)
    rw [h,Nat.zero_max] at hle
    rw [Gen.slack_nops] at hm
    refine ⟨k,need+1+m,?_,?_⟩
    · simp only at hle
      omega
    · rw [heq,nops_drawn,nops_add]

end

theorem slack_le {s : State} (h : Inv s) (regs : List Reg) : Gen.slack s regs ≤ 2 := by
  induction regs with
  | nil => exact Nat.zero_le _
  | cons r regs ih =>
    rw [Gen.slack]
    cases hw : s.lastWrite.lookup r with
    | none =>
      simp only
      omega
    | some w =>
      obtain ⟨l,l',heq,_⟩ := List.lookup_eq_some_iff.mp hw
      have := h.written (r,w) (by rw [heq];simp)
      simp only at this ⊢
      omega

/-! ### Drawing -/

open Hoare

/-- What is drawn meets `V`, and nothing but the tape moves. -/
def Draws {α : Type} (E : Prop) (m : M α) (V : α → Prop) : Prop :=
  ∀ s : State, Triple E (fun t => ∃ k, t = { s with drawn := k }) m
    (fun v t => V v ∧ ∃ k, t = { s with drawn := k })

namespace Draws

variable {α β : Type} {E : Prop} {m : M α} {V : α → Prop} {W : β → Prop}

theorem ret {a : α} (h : V a) : Draws E (pure a : M α) V := fun _ => Triple.ret a fun _ ht => ⟨h,ht⟩

theorem bind {f : α → M β} (hm : Draws E m V) (hf : ∀ a, V a → Draws E (f a) W) :
    Draws E (m >>= f) W :=
  fun s => (hm s).bind fun a => Triple.pre fun ha => hf a ha s

theorem mono {V' : α → Prop} (hm : Draws E m V) (h : ∀ a, V a → V' a) : Draws E m V' :=
  fun s => (hm s).conseq (fun _ ht => ht) fun a _ ha => ⟨h a ha.1,ha.2⟩

theorem ite {c : Prop} [Decidable c] {m' : M α} (ht : Draws E m V) (hf : Draws E m' V) :
    Draws E (if c then m else m') V := fun s => Triple.ite (ht s) (hf s)

theorem seq {f : α → M β} {P : State → Prop} {Q : β → State → Prop} (hm : Draws E m V)
    (hP : ∀ s k, P s → P { s with drawn := k }) (hf : ∀ a, V a → Triple E P (f a) Q) :
    Triple E P (m >>= f) Q := by
  intro s hs
  have hrun : Triple E (fun t => ∃ k, t = { s with drawn := k }) (m >>= f) Q :=
    (hm s).bind fun a => Triple.pre fun ha t ⟨k,ht⟩ => hf a ha t (ht ▸ hP s k hs)
  exact hrun s ⟨s.drawn,rfl⟩

end Draws

section

variable {F : Type} (g : Gen F) {E : Prop}

theorem draws_random : Draws E g.random fun _ => True := by
  rintro s t ⟨k,rfl⟩
  exact ⟨trivial,k+1,rfl⟩

theorem draws_randbelow {n : Nat} (hn : 0 < n) : Draws E (g.randbelow n) fun k => k < n := by
  rintro s t ⟨k,rfl⟩
  have hrun : (g.randbelow n).run { s with drawn := k } =
      some (g.rng.int k % n,{ s with drawn := k+1 }) := if_neg (by omega)
  rw [hrun]
  exact ⟨Nat.mod_lt _ hn,k+1,rfl⟩

theorem draws_randrange {lo hi : Int} (h : lo < hi) :
    Draws E (g.randrange lo hi) fun k => lo ≤ k ∧ k < hi := by
  refine (draws_randbelow g (n := (hi-lo).toNat) (by omega)).bind fun k hk => Draws.ret ?_
  omega

theorem draws_choice {α : Type} {l : List α} (hl : l = [] → E) :
    Draws E (g.choice l) fun x => x ∈ l := by
  cases l with
  | nil =>
    intro s t _
    exact hl rfl
  | cons x l =>
    refine (draws_randbelow g (Nat.succ_pos l.length)).bind fun k hk => ?_
    rw [List.getElem?_eq_getElem hk]
    exact Draws.ret (List.getElem_mem hk)

theorem draws_r (hpool : g.pool ≠ []) : Draws E g.r fun r => r ∈ g.pool :=
  draws_choice g fun h => absurd h hpool

theorem draws_opImm {ops : List RiOp} (hops : ops ≠ []) {lo hi : Int} (h : lo < hi) :
    Draws E (g.opImm ops lo hi) fun _ => True :=
  (draws_choice g fun h => absurd h hops).bind fun _ _ =>
    (draws_randrange g h).bind fun _ _ => Draws.ret trivial

variable [LT F] [DecidableLT F]

theorem draws_chance (p : F) : Draws E (g.chance p) fun _ => True :=
  (draws_random g).bind fun _ _ => Draws.ret trivial

variable [OfScientific F]

theorem draws_anySrc (hpool : g.pool ≠ []) : Draws E g.anySrc fun _ => True :=
  (draws_chance g _).bind fun _ _ =>
    Draws.ite (Draws.ret trivial) ((draws_choice g fun h => absurd h hpool).mono fun _ _ => trivial)

theorem draws_liveField (imm : Nat) (live : Option Reg) :
    Draws E (g.liveField imm live) fun _ => True := by
  cases live with
  | none => exact Draws.ret trivial
  | some live => exact (draws_chance g _).bind fun _ _ => Draws.ret trivial

end

/-! ### Plain instructions -/

/-- Between two instructions no labels are on hold. -/
structure Ready (s : State) : Prop extends Inv s where
  free : s.labelHold = false

namespace Ready

theorem drawn (s : State) (k : Nat) (h : Ready s) : Ready { s with drawn := k } :=
  ⟨h.toInv.drawn k,h.free⟩

theorem nop {s : State} (h : Ready s) : Ready s.nop := ⟨h.toInv.plain plain_nop,h.free⟩

end Ready

variable {E : Prop}

/-- Padding keeps whatever a NOP keeps, and uses up at most two of a distance that NOPs
shorten. -/
theorem keeps_padFor {F : Type} [LE F] [DecidableLE F] (g : Gen F) {P : Nat → State → Prop}
    (hinv : ∀ {d s}, P d s → Inv s) (hdrawn : ∀ d s k, P d s → P d { s with drawn := k })
    (hle : ∀ {d d' s}, d' ≤ d → P d s → P d' s) (hnop : ∀ {d s}, P (d+1) s → P d s.nop)
    (regs : List Reg) : Triple E (P 2) (g.padFor regs) fun _ => P 0 := by
  have hnops : ∀ m s, P m s → P 0 (State.nops m s) := by
    intro m
    induction m with
    | zero => exact fun _ hs => hs
    | succ m ih => exact fun s hs => ih s.nop (hnop hs)
  refine Triple.update fun s hs => ?_
  obtain ⟨k,m,hm,heq⟩ := padState_eq g s regs
  rw [heq]
  exact hnops m _ (hdrawn m s k (hle (Nat.le_trans hm (slack_le (hinv hs) regs)) hs))

theorem ready_emit {l : Line} (hl : Plain l) : Triple E Ready (Gen.emit l) fun _ => Ready :=
  Triple.update fun _ hs => ⟨hs.toInv.plain hl,hs.free⟩

theorem ready_wrote (rd : Reg) (isLoad : Bool) :
    Triple E Ready (Gen.wrote rd isLoad) fun _ => Ready := by
  refine Triple.update fun s hs => ⟨hs.toInv.wrote rd isLoad,?_⟩
  unfold State.wrote
  split
  all_goals exact hs.free

section

variable {F : Type} [LE F] [DecidableLE F] (g : Gen F)

theorem ready_padFor (regs : List Reg) : Triple E Ready (g.padFor regs) fun _ => Ready :=
  keeps_padFor g (P := fun _ => Ready) Ready.toInv (fun _ => Ready.drawn) (fun _ h => h) Ready.nop regs

theorem ready_padded (regs : List Reg) {l : Line} (hl : Plain l) :
    Triple E Ready (g.padFor regs >>= fun _ => Gen.emit l) fun _ => Ready :=
  (ready_padFor g regs).bind fun _ => ready_emit hl

theorem ready_padded_wrote (regs : List Reg) {l : Line} (hl : Plain l) (rd : Reg) (isLoad : Bool) :
    Triple E Ready (g.padFor regs >>= fun _ => Gen.emit l >>= fun _ => Gen.wrote rd isLoad)
      fun _ => Ready :=
  (ready_padFor g regs).bind fun _ => (ready_emit hl).bind fun _ => ready_wrote rd isLoad

end

structure PoolOk (pool : List Reg) : Prop where
  ne : pool ≠ []
  zero : 0 ∉ pool
  base : baseReg ∉ pool

def NoPair (pool : List Reg) : Prop := ¬ ∃ a ∈ pool, ∃ b ∈ pool, a ≠ b

section

variable {pool : List Reg} {rd : Reg} (hp : PoolOk pool) (hrd : rd ∈ pool)

include hp hrd

theorem PoolOk.ne_base : some rd ≠ some baseReg := fun h => hp.base (Option.some.inj h ▸ hrd)

theorem plain_rr (op : RrOp) (rs1 rs2 : Reg) : Plain (.rr op rd rs1 rs2) :=
  ⟨hp.ne_base hrd,rfl,rfl,rfl,nofun⟩

theorem plain_ri (op : RiOp) (rs1 : Reg) (imm : Int) : Plain (.ri op rd rs1 imm) :=
  ⟨hp.ne_base hrd,rfl,rfl,rfl,nofun⟩

theorem plain_un (op : UnOp) (rs1 : Reg) : Plain (.un op rd rs1) :=
  ⟨hp.ne_base hrd,rfl,rfl,rfl,nofun⟩

theorem plain_upper (op : UpperOp) (imm : Nat) : Plain (.upper op rd imm) :=
  ⟨hp.ne_base hrd,rfl,rfl,rfl,nofun⟩

end

section

variable {F : Type} (g : Gen F) (hp : PoolOk g.pool)

include hp

/-- The edge operands want a second register, so they fail where there is none. -/
theorem ready_muldivEdge (hE : NoPair g.pool → E) (rs1 : Reg) :
    Triple E Ready (g.muldivEdge rs1) fun _ => Ready := by
  unfold Gen.muldivEdge
  refine (draws_randbelow g (by decide)).seq Ready.drawn fun kind _ => ?_
  refine Triple.ite (Triple.ret _ fun _ hs => hs) (Triple.ite ?_ ?_)
  · unfold Gen.divisorM1
    refine (draws_r g hp.ne).seq Ready.drawn fun rs2 hrs2 => ?_
    refine (ready_emit (plain_ri hp hrs2 _ _ _)).bind fun _ => ?_
    refine (ready_wrote rs2 false).bind fun _ => ?_
    exact Triple.ret _ fun _ hs => hs
  · unfold Gen.overflowPair
    refine (draws_r g hp.ne).seq Ready.drawn fun rs1 hrs1 => ?_
    have hother : g.pool.filter (fun r => r ≠ rs1) = [] → E := by
      refine fun hnil => hE ?_
      rintro ⟨a,ha,b,hb,hab⟩
      have hall : ∀ r ∈ g.pool, r = rs1 := by
        intro r hr
        by_contra hne
        exact List.not_mem_nil (hnil ▸ List.mem_filter.mpr ⟨hr,decide_eq_true hne⟩)
      exact hab ((hall a ha).trans (hall b hb).symm)
    refine (draws_choice g hother).seq Ready.drawn fun rs2 hrs2 => ?_
    refine (ready_emit (plain_upper hp hrs1 _ _)).bind fun _ => ?_
    refine (ready_wrote rs1 false).bind fun _ => ?_
    refine (ready_emit (plain_ri hp (List.mem_filter.mp hrs2).1 _ _ _)).bind fun _ => ?_
    refine (ready_wrote rs2 false).bind fun _ => ?_
    exact Triple.ret _ fun _ hs => hs

variable [LT F] [OfScientific F] [DecidableLT F]

theorem ready_upper : Triple E Ready g.upper fun _ => Ready := by
  unfold Gen.upper
  refine (draws_r g hp.ne).seq Ready.drawn fun rd hrd => ?_
  refine (draws_randbelow g (by decide)).seq Ready.drawn fun imm _ => ?_
  refine Triple.read_any fun s => ?_
  refine (draws_liveField g imm _).seq Ready.drawn fun imm _ => ?_
  refine (draws_chance g _).seq Ready.drawn fun lui _ => ?_
  exact (ready_emit (plain_upper hp hrd _ imm)).bind fun _ => ready_wrote rd false

variable [LE F] [DecidableLE F]

theorem ready_bitmanip : Triple E Ready g.bitmanip fun _ => Ready := by
  unfold Gen.bitmanip
  refine (draws_randbelow g (by decide)).seq Ready.drawn fun kind _ => ?_
  refine (draws_r g hp.ne).seq Ready.drawn fun rd hrd => ?_
  refine (draws_anySrc g hp.ne).seq Ready.drawn fun rs1 _ => ?_
  refine Triple.bind (Triple.ite ?_ (Triple.ite ?_ ?_)) fun _ => ready_wrote rd false
  · unfold Gen.bitmanipRr
    refine (draws_choice g nofun).seq Ready.drawn fun op _ => ?_
    refine (draws_anySrc g hp.ne).seq Ready.drawn fun rs2 _ => ?_
    refine (Draws.ite (draws_chance g _) (Draws.ret trivial)).seq Ready.drawn fun zero _ => ?_
    exact ready_padded g _ (plain_rr hp hrd op _ _)
  · unfold Gen.bitmanipRi
    refine (draws_choice g nofun).seq Ready.drawn fun op _ => ?_
    refine (draws_chance g _).seq Ready.drawn fun edge _ => ?_
    refine (Draws.ite (V := fun _ => True) ((draws_choice g nofun).mono fun _ _ => trivial)
      ((draws_randbelow g (by decide)).mono fun _ _ => trivial)).seq Ready.drawn fun sh _ => ?_
    exact ready_padded g _ (plain_ri hp hrd op _ _)
  · unfold Gen.bitmanipUn
    refine (draws_choice g nofun).seq Ready.drawn fun op _ => ?_
    exact ready_padded g _ (plain_un hp hrd op _)

theorem ready_regReg : Triple E Ready g.regReg fun _ => Ready := by
  unfold Gen.regReg
  refine (draws_choice g nofun).seq Ready.drawn fun op _ => ?_
  refine (draws_r g hp.ne).seq Ready.drawn fun rd hrd => ?_
  refine (draws_anySrc g hp.ne).seq Ready.drawn fun rs1 _ => ?_
  refine (draws_anySrc g hp.ne).seq Ready.drawn fun rs2 _ => ?_
  exact ready_padded_wrote g _ (plain_rr hp hrd op _ _) rd false

theorem ready_muldiv (hE : NoPair g.pool → E) : Triple E Ready g.muldiv fun _ => Ready := by
  unfold Gen.muldiv
  refine (draws_choice g nofun).seq Ready.drawn fun op _ => ?_
  refine (draws_r g hp.ne).seq Ready.drawn fun rd hrd => ?_
  refine (draws_anySrc g hp.ne).seq Ready.drawn fun rs1 _ => ?_
  refine (draws_anySrc g hp.ne).seq Ready.drawn fun rs2 _ => ?_
  refine (Draws.ite (draws_chance g _) (Draws.ret trivial)).seq Ready.drawn fun edge _ => ?_
  refine (Triple.ite (ready_muldivEdge g hp hE rs1) (Triple.ret _ fun _ hs => hs)).bind fun rs => ?_
  exact ready_padded_wrote g _ (plain_rr hp hrd op _ _) rd false

theorem ready_regImm : Triple E Ready g.regImm fun _ => Ready := by
  unfold Gen.regImm
  refine (draws_chance g _).seq Ready.drawn fun shift _ => ?_
  have himm : ∀ c : Bool, Draws E (if c then g.opImm shiftI 0 32 else g.opImm riOps (-2048) 2048)
      fun _ => True := fun _ =>
    Draws.ite (draws_opImm g (by decide) (by decide)) (draws_opImm g (by decide) (by decide))
  refine (himm shift).seq Ready.drawn fun o _ => ?_
  refine (draws_r g hp.ne).seq Ready.drawn fun rd hrd => ?_
  refine (draws_anySrc g hp.ne).seq Ready.drawn fun rs1 _ => ?_
  exact ready_padded_wrote g _ (plain_ri hp hrd _ _ _) rd false

end

/-! ### Loads and stores -/

/-- An access to `total` has its base and offset. An aliased base was set by the `addi` the
lines now end with, and no label comes in between. -/
structure Based (total : Nat) (b : Reg × Nat) (s : State) : Prop extends Inv s where
  addr : b = (baseReg,total) ∨
    s.labelHold = true ∧ b.1 ≠ 0 ∧ b.1 ≠ baseReg ∧ ∃ k, k+b.2 = total ∧ Aliased s.out b.1 k

theorem aliased_nop {out : List Line} {b : Reg} {k : Nat} (h : Aliased out b k) :
    Aliased (out ++ [.nop]) b k := by
  obtain ⟨pre,m,rfl⟩ := h
  exact ⟨pre,m+1,by rw [List.append_assoc,List.cons_append,List.replicate_succ']⟩

theorem due_hold {s : State} (h : s.labelHold = true) : s.due = [] := if_pos h

theorem wrote_out (s : State) (rd : Reg) (isLoad : Bool) : (s.wrote rd isLoad).out = s.out := by
  unfold State.wrote
  split
  all_goals rfl

namespace Based

variable {total : Nat} {b : Reg × Nat}

theorem drawn (s : State) (k : Nat) (h : Based total b s) : Based total b { s with drawn := k } :=
  ⟨h.toInv.drawn k,h.addr⟩

theorem nop {s : State} (h : Based total b s) : Based total b s.nop := by
  refine ⟨h.toInv.plain plain_nop,h.addr.imp_right ?_⟩
  rintro ⟨hh,h0,h8,k,hk,hal⟩
  refine ⟨hh,h0,h8,k,hk,?_⟩
  rw [State.nop,State.emit_out,due_hold hh,List.map_nil,List.append_nil]
  exact aliased_nop hal

theorem emit {s : State} (h : Based total b s) {l : Line} {width : Nat}
    (hacc : l.access = some (b.1,b.2,width)) (hrd : l.rd ≠ some baseReg) (hu : l.uses = none)
    (hd : l.defines = none) (hok : OffsetOk total width) : Inv (s.emit l) := by
  have hgoes : l ≠ .ecall := by
    rintro rfl
    cases hacc
  have hnone : ∀ n, l.uses ≠ some n := fun n hn => nomatch hu.symm.trans hn
  refine h.toInv.emit hd hgoes (fun n hn => absurd hn (hnone n))
    ⟨fun _ => hrd,fun n hn => absurd hn (hnone n),?_⟩
  intro base off w haccess
  rw [hacc] at haccess
  cases haccess
  rcases h.addr with rfl | ⟨hh,h0,h8,k,hk,hal⟩
  · exact .inl ⟨rfl,hok⟩
  · rw [due_hold hh,List.map_nil,List.append_nil]
    exact .inr ⟨h0,h8,k,hal,hk ▸ hok⟩

end Based

theorem inv_wrote (rd : Reg) (isLoad : Bool) : Triple E Inv (Gen.wrote rd isLoad) fun _ => Inv :=
  Triple.update fun _ hs => hs.wrote rd isLoad

theorem offsetOk {raw width : Nat} (hraw : raw < scratchBytes-4) (hw : width ≤ 4) :
    OffsetOk (raw/width*width) width := by
  have hle := Nat.div_mul_le_self raw width
  have h256 : scratchBytes = 256 := rfl
  exact ⟨by omega,Nat.dvd_mul_left width _⟩

theorem loads_align : ∀ o ∈ loads, o.2 = o.1.width ∧ o.2 ≤ 4 := by decide

theorem stores_align : ∀ o ∈ stores, o.2 = o.1.width ∧ o.2 ≤ 4 := by decide

section

variable {F : Type} [LE F] [DecidableLE F] (g : Gen F)

theorem based_padFor {total : Nat} {b : Reg × Nat} (regs : List Reg) :
    Triple E (Based total b) (g.padFor regs) fun _ => Based total b :=
  keeps_padFor g (P := fun _ => Based total b) Based.toInv (fun _ => Based.drawn) (fun _ h => h)
    Based.nop regs

end

section

variable {F : Type} [LT F] [OfScientific F] [DecidableLT F] (g : Gen F) (hp : PoolOk g.pool)

include hp

theorem based_memBase (total : Nat) : Triple E Ready (g.memBase total) (Based total) := by
  unfold Gen.memBase
  refine (draws_chance g _).seq Ready.drawn fun aliased _ => Triple.ite ?_ ?_
  · refine (draws_r g hp.ne).seq Ready.drawn fun base hbase => ?_
    refine (draws_randbelow g (Nat.succ_pos total)).seq Ready.drawn fun k hk => ?_
    have h0 : base ≠ 0 := fun h => hp.zero (h ▸ hbase)
    have h8 : base ≠ baseReg := fun h => hp.base (h ▸ hbase)
    refine Triple.bind (Q := fun _ s => Inv s ∧ Aliased s.out base k)
      (Triple.update fun s hs => ?_) fun _ => ?_
    · exact ⟨hs.toInv.plain (plain_ri hp hbase _ _ _),_,0,rfl⟩
    refine Triple.bind (Q := fun _ s => Inv s ∧ Aliased s.out base k)
      (Triple.update fun s hs => ?_) fun _ => ?_
    · exact ⟨hs.1.wrote base false,by rw [wrote_out];exact hs.2⟩
    refine Triple.bind (Q := fun _ => Based total (base,total-k))
      (Triple.update fun s hs => ?_) fun _ => Triple.ret _ fun _ hs => hs
    exact ⟨hs.1.hold true,.inr ⟨rfl,h0,h8,k,by change k+(total-k) = total;omega,hs.2⟩⟩
  · exact Triple.ret _ fun s hs => ⟨hs.toInv,.inl rfl⟩

variable [LE F] [DecidableLE F]

theorem inv_memLoad : Triple E Ready g.memLoad fun _ => Inv := by
  unfold Gen.memLoad
  refine (draws_choice g nofun).seq Ready.drawn fun o ho => ?_
  obtain ⟨halign,hw⟩ := loads_align o ho
  refine (draws_randbelow g (by decide)).seq Ready.drawn fun raw hraw => ?_
  refine (based_memBase g hp _).bind fun b => ?_
  refine (draws_r g hp.ne).seq Based.drawn fun rd hrd => ?_
  refine (based_padFor g _).bind fun _ => ?_
  refine Triple.bind (Triple.update fun s hs => ?_) fun _ => inv_wrote rd true
  exact hs.emit rfl (hp.ne_base hrd) rfl rfl (halign ▸ offsetOk hraw hw)

theorem inv_memStore : Triple E Ready g.memStore fun _ => Inv := by
  unfold Gen.memStore
  refine (draws_choice g nofun).seq Ready.drawn fun o ho => ?_
  obtain ⟨halign,hw⟩ := stores_align o ho
  refine (draws_randbelow g (by decide)).seq Ready.drawn fun raw hraw => ?_
  refine (based_memBase g hp _).bind fun b => ?_
  refine (draws_anySrc g hp.ne).seq Based.drawn fun rs2 _ => ?_
  refine (based_padFor g _).bind fun _ => Triple.update fun s hs => ?_
  exact hs.emit rfl nofun rfl rfl (halign ▸ offsetOk hraw hw)

theorem ready_mem : Triple E Ready g.mem fun _ => Ready := by
  unfold Gen.mem
  refine (draws_chance g _).seq Ready.drawn fun load _ => ?_
  refine (Triple.ite (inv_memLoad g hp) (inv_memStore g hp)).bind fun _ => ?_
  exact Triple.update fun s hs => ⟨hs.hold false,rfl⟩

end

/-! ### Branches -/

/-- The label `lbl` is taken but not owed yet, and its target at least `d` lines away. -/
structure Aiming (target lbl d : Nat) (s : State) : Prop extends Ready s where
  last : s.labelN = lbl
  fresh : ∀ n ∈ s.labels, n < lbl
  ahead : s.idx+d ≤ target

/-- The label is owed, and will not come out ahead of the next line. -/
structure Owing (lbl : Nat) (s : State) : Prop extends Ready s where
  owed : lbl ∈ s.labels
  fresh : lbl ∉ defs (s.out ++ s.due.map .label)

namespace Aiming

variable {target lbl d : Nat}

theorem drawn (s : State) (k : Nat) (h : Aiming target lbl d s) :
    Aiming target lbl d { s with drawn := k } :=
  ⟨Ready.drawn s k h.toReady,h.last,h.fresh,h.ahead⟩

theorem nop {s : State} (h : Aiming target lbl (d+1) s) : Aiming target lbl d s.nop := by
  refine ⟨h.toReady.nop,h.last,fun n hn => ?_,?_⟩
  · exact h.fresh n ((State.emit_labels h.nodup rfl).mem_iff.mp hn)
  · have := h.ahead
    rw [State.nop_idx]
    omega

theorem mono {d' : Nat} (hd : d' ≤ d) (s : State) (h : Aiming target lbl d s) :
    Aiming target lbl d' s :=
  ⟨h.toReady,h.last,h.fresh,Nat.le_trans (Nat.add_le_add_left hd _) h.ahead⟩

theorem later {target' : Nat} (ht : target ≤ target') (s : State) (h : Aiming target lbl d s) :
    Aiming target' lbl d s := ⟨h.toReady,h.last,h.fresh,Nat.le_trans h.ahead ht⟩

theorem owe {s : State} (h : Aiming target lbl 1 s) :
    Owing lbl { s with pendingLabels := s.pendingLabels ++ [(target,lbl)] } := by
  have hnot : lbl ∉ s.labels := fun hmem => Nat.lt_irrefl _ (h.fresh lbl hmem)
  have hlabels : State.labels { s with pendingLabels := s.pendingLabels ++ [(target,lbl)] } =
      s.labels ++ [lbl] := by
    rw [State.labels,State.labels,List.map_append,List.append_assoc]
    rfl
  have hdue : State.due { s with pendingLabels := s.pendingLabels ++ [(target,lbl)] } = s.due := by
    have hlate : ¬ target ≤ s.idx := by
      have := h.ahead
      omega
    unfold State.due
    simp [hlate]
  refine ⟨⟨⟨h.start,h.grown,h.goes,?_,?_,?_,h.written⟩,h.free⟩,?_,?_⟩
  · rw [hlabels,← List.concat_eq_append]
    exact h.nodup.concat hnot
  · rw [hlabels]
    intro n hn
    rcases List.mem_append.mp hn with hn | hn
    · exact h.bound n hn
    · rw [List.mem_singleton.mp hn]
      exact Nat.le_of_eq h.last.symm
  · rw [hlabels]
    exact fun l hl n hn => List.mem_append_left _ (h.used l hl n hn)
  · rw [hlabels]
    exact List.mem_append_right _ (.head _)
  · rw [hdue,defs_append,defs_labels]
    intro hmem
    refine hnot ?_
    rcases List.mem_append.mp hmem with hmem | hmem
    · exact List.mem_append_left _ hmem
    · exact List.mem_append_right _ (State.due_subset hmem)

end Aiming

theorem owing_emit {lbl : Nat} {l : Line} (hu : l.uses = some lbl) (hrd : l.rd ≠ some baseReg)
    (hd : l.defines = none) (hacc : l.access = none) :
    Triple E (Owing lbl) (Gen.emit l) fun _ => Ready := by
  refine Triple.update fun s hs => ⟨hs.toInv.emit hd ?_ ?_ ⟨fun _ => hrd,?_,?_⟩,hs.free⟩
  · rintro rfl
    cases hu
  · intro n hn
    rw [hu] at hn
    cases hn
    exact hs.owed
  · intro n hn
    rw [hu] at hn
    cases hn
    exact hs.fresh
  · intro b off w h
    rw [hacc] at h
    cases h

section

variable {F : Type} [LE F] [DecidableLE F] (g : Gen F)

theorem aiming_padFor {target lbl : Nat} (regs : List Reg) :
    Triple E (Aiming target lbl 3) (g.padFor regs) fun _ => Aiming target lbl 1 :=
  keeps_padFor g (P := fun d => Aiming target lbl (d+1)) (fun h => h.toInv) (fun _ => Aiming.drawn)
    (fun hd => Aiming.mono (Nat.succ_le_succ hd) _) Aiming.nop regs

end

section

variable {F : Type} [LT F] [OfScientific F] [DecidableLT F] (g : Gen F) (hp : PoolOk g.pool)

include hp

theorem ready_jump (target lbl : Nat) :
    Triple E (Aiming target lbl 3) (g.jump target lbl) fun _ => Ready := by
  unfold Gen.jump
  refine (draws_chance g _).seq Aiming.drawn fun link _ => ?_
  have hrd : Draws E (if link then g.r else pure 0) fun rd => rd ≠ baseReg :=
    Draws.ite ((draws_r g hp.ne).mono fun rd hrd h => hp.base (h ▸ hrd)) (Draws.ret (by decide))
  refine hrd.seq Aiming.drawn fun rd hne => ?_
  refine Triple.bind (Q := fun _ => Owing lbl)
    (Triple.update fun s hs => (hs.mono (by decide) s).owe) fun _ => ?_
  have hrd' : (Line.jal rd lbl).rd ≠ some baseReg := fun h => hne (Option.some.inj h)
  exact (owing_emit rfl hrd' rfl rfl).bind fun _ => ready_wrote rd false

variable [LE F] [DecidableLE F]

theorem ready_condBranch (target lbl : Nat) :
    Triple E (Aiming target lbl 3) (g.condBranch target lbl) fun _ => Ready := by
  unfold Gen.condBranch
  refine (draws_choice g nofun).seq Aiming.drawn fun op _ => ?_
  refine (draws_anySrc g hp.ne).seq Aiming.drawn fun rs1 _ => ?_
  refine (draws_chance g _).seq Aiming.drawn fun same _ => ?_
  refine (Draws.ite (Draws.ret trivial) (draws_anySrc g hp.ne)).seq Aiming.drawn fun rs2 _ => ?_
  refine (aiming_padFor g _).bind fun _ => ?_
  refine Triple.bind (Q := fun _ => Owing lbl) (Triple.update fun s hs => hs.owe) fun _ => ?_
  exact owing_emit rfl nofun rfl rfl

theorem ready_branch : Triple E Ready g.branch fun _ => Ready := by
  unfold Gen.branch
  refine Triple.bind (Q := fun _ s => Ready s ∧ ∀ n ∈ s.labels, n < s.labelN)
    (Triple.update fun s hs => ?_) fun _ => ?_
  · refine ⟨⟨⟨hs.start,hs.grown,hs.goes,hs.nodup,fun n hn => ?_,hs.used,hs.written⟩,hs.free⟩,?_⟩
    · exact Nat.le_succ_of_le (hs.bound n hn)
    · exact fun n hn => Nat.lt_succ_of_le (hs.bound n hn)
  refine Triple.read.bind fun s0 => ?_
  have haim : ∀ s, s0 = s ∧ Ready s ∧ (∀ n ∈ s.labels, n < s.labelN) →
      Aiming (s0.idx+3) s0.labelN 3 s := by
    rintro s ⟨rfl,hs,hfresh⟩
    exact ⟨hs,rfl,hfresh,Nat.le_refl _⟩
  refine Triple.conseq ?_ haim fun _ _ h => h
  refine (draws_randrange g (by decide)).seq Aiming.drawn fun ahead hahead => ?_
  have hlater := @Aiming.later (s0.idx+3) s0.labelN 3 (s0.idx+ahead.toNat) (by omega)
  refine (draws_chance g _).seq Aiming.drawn fun isJump _ => Triple.ite ?_ ?_
  · exact (ready_jump g hp _ _).conseq hlater fun _ _ h => h
  · exact (ready_condBranch g hp _ _).conseq hlater fun _ _ h => h

end

/-! ### Whole programs -/

/-- The flushing loop comes to its end, with no label left. -/
theorem flush_ready {s : State} (h : Ready s) :
    ∃ s', flush s = some s' ∧ Ready s' ∧ s'.pendingLabels = [] := by
  fun_induction flush s with
  | case1 s hp => exact ⟨s,rfl,h,hp⟩
  | case2 s _ hh => exact absurd h.free (by rw [hh];decide)
  | case3 s _ _ ih => exact ih h.nop

theorem grown_prologue : Grown Allowed prologue := by
  intro i l hl
  have hlt : i < prologue.length := (List.getElem?_eq_some_iff.mp hl).1
  have hnone : ∀ l ∈ prologue, l.uses = none ∧ l.access = none := by decide
  obtain ⟨hu,ha⟩ := hnone l (List.mem_of_getElem? hl)
  refine allowed_inert (fun hle => ?_) hu ha
  rw [List.length_take] at hle
  omega

theorem ready_prologue {s : State} (hout : s.out = prologue) (hidx : s.idx = 8)
    (hwrite : s.lastWrite = [(baseReg,4)]) (hpend : s.pendingLabels = [])
    (hhold : s.labelHold = false) : Ready s := by
  have hlabels : s.labels = [] := by
    rw [State.labels,hout,hpend]
    decide
  have hnone : ∀ l ∈ prologue, l.uses = none := by decide
  refine ⟨⟨⟨[],?_⟩,?_,?_,?_,?_,?_,?_⟩,hhold⟩
  · rw [hout,List.append_nil]
  · rw [hout]
    exact grown_prologue
  · rw [hout]
    decide
  · rw [hlabels]
    exact List.nodup_nil
  · rw [hlabels]
    exact nofun
  · rw [hout]
    intro l hl n hn
    rw [hnone l hl] at hn
    cases hn
  · rw [hwrite,hidx]
    decide

section

variable {F : Type} [Add F] [LT F] [LE F] [OfScientific F] [DecidableLT F] [DecidableLE F]
variable (g : Gen F) (hp : PoolOk g.pool)

include hp

theorem ready_instruction (hE : NoPair g.pool → E) : Triple E Ready g.instruction fun _ => Ready := by
  unfold Gen.instruction
  refine (draws_random g).seq Ready.drawn fun pick _ => ?_
  refine Triple.ite (ready_branch g hp) (Triple.ite (ready_muldiv g hp hE)
    (Triple.ite (ready_bitmanip g hp) ?_))
  exact Triple.ite (ready_mem g hp) (Triple.ite (ready_upper g hp)
    (Triple.ite (ready_regImm g hp) (ready_regReg g hp)))

theorem ready_generate (hE : NoPair g.pool → E) :
    Triple E (fun s => s = State.init) g.generate
      fun out s => out = s.out ∧ Ready s ∧ s.pendingLabels = [] := by
  unfold Gen.generate
  refine Triple.update_eq.bind fun _ => Triple.update_eq.bind fun _ => ?_
  refine Triple.update_eq.bind fun _ => Triple.update_eq.bind fun _ => ?_
  refine Triple.bind (Q := fun _ => Ready) (Triple.update fun s hs => ?_) fun _ => ?_
  · rw [hs]
    exact ready_prologue rfl rfl rfl rfl rfl
  refine Triple.bind (Q := fun _ => Ready) (Triple.loop fun r hr => ?_) fun _ => ?_
  · refine (draws_randbelow g (by decide)).seq Ready.drawn fun imm _ => ?_
    exact (ready_emit (plain_upper hp hr _ _)).bind fun _ => ready_wrote r false
  refine Triple.bind (Q := fun _ => Ready) (Triple.loop fun r hr => ?_) fun _ => ?_
  · refine (ready_padFor g _).bind fun _ => ?_
    refine (draws_randrange g (by decide)).seq Ready.drawn fun imm _ => ?_
    exact (ready_emit (plain_ri hp hr _ _ _)).bind fun _ => ready_wrote r false
  refine Triple.bind (Q := fun _ => Ready)
    (Triple.loop fun _ _ => ready_instruction g hp hE) fun _ => ?_
  refine Triple.bind (Q := fun _ s => Ready s ∧ s.pendingLabels = []) ?_ fun _ => ?_
  · intro s hs
    obtain ⟨s',heq,hs'⟩ := flush_ready hs
    have hrun : StateT.run (fun s => (flush s).map fun s => ((),s) : M Unit) s = some ((),s') :=
      congrArg (Option.map fun s => ((),s)) heq
    rw [hrun]
    exact hs'
  · exact Triple.read.bind fun s0 => Triple.ret _ fun s hs => ⟨congrArg State.out hs.1,hs.2⟩

end

/-- The script's own check passes on every list of lines that are allowed. -/
theorem checkAliasBases_grown {lines : List Line} (h : Grown Allowed lines) :
    checkAliasBases lines = true := by
  have hok : ∀ before base k, Aliased before base k → aliasOk before base = true := by
    rintro _ base k ⟨pre,m,rfl⟩
    rw [aliasOk,List.reverse_append,List.reverse_cons,List.reverse_replicate,List.append_assoc,
      List.dropWhile_append_of_pos (by simp)]
    simp
  refine List.all_eq_true.mpr fun i _ => ?_
  split
  case h_2 => rfl
  case h_1 base hbase =>
    obtain ⟨l,hl,hmem⟩ := Option.bind_eq_some_iff.mp hbase
    have hacc : ∃ off w, l.access = some (base,off,w) := by
      cases l
      case load | store =>
        cases hmem
        exact ⟨_,_,rfl⟩
      all_goals cases hmem
    obtain ⟨off,w,hacc⟩ := hacc
    rcases (h i l hl).access base off w hacc with ⟨rfl,_⟩ | ⟨_,_,k,hal,_⟩
    · rfl
    · rw [hok _ base k hal,Bool.or_true]

theorem wellFormed_epilogue {s : State} (h : Ready s) (hpend : s.pendingLabels = []) :
    WellFormed (s.out ++ epilogue) := by
  have hlabels : s.labels = defs s.out := by
    rw [State.labels,hpend]
    exact List.append_nil _
  have hdefs : defs (s.out ++ epilogue) = defs s.out := by
    rw [defs_append]
    exact List.append_nil _
  have hplain : ∀ l ∈ epilogue, l.rd ≠ some baseReg ∧ l.uses = none ∧ l.access = none := by decide
  refine ⟨?_,?_,?_,?_,?_⟩
  · obtain ⟨body,hbody⟩ := h.start
    exact ⟨body ++ epilogue,by rw [hbody,List.append_assoc]⟩
  · refine h.grown.append fun before l hl => ?_
    obtain ⟨hrd,hu,ha⟩ := hplain l hl
    exact allowed_inert (fun _ => hrd) hu ha
  · rw [hdefs,← hlabels]
    exact h.nodup
  · intro l hl n hn
    rw [hdefs,← hlabels]
    rcases List.mem_append.mp hl with hl | hl
    · exact h.used l hl n hn
    · rw [(hplain l hl).2.1] at hn
      cases hn
  · refine ⟨s.out ++ epilogue.dropLast,by rw [List.append_assoc];rfl,?_⟩
    rw [List.mem_append]
    rintro (hmem | hmem)
    · exact h.goes hmem
    · revert hmem
      decide

section

variable {F : Type} [Add F] [LT F] [LE F] [OfScientific F] [DecidableLT F] [DecidableLE F]

theorem poolOk {pool : List Reg} (h0 : 0 ∉ pool) (h8 : baseReg ∉ pool) :
    PoolOk (if pool = [] then defaultPool else pool) := by
  split
  case isTrue => exact ⟨by decide,by decide,by decide⟩
  case isFalse hne => exact ⟨hne,h0,h8⟩

/-- Neither assertion fails, so `generate` is `Gen.generate` with the epilogue behind it. -/
theorem generate_eq (rng : Tape F) (n : Nat) (pool : List Reg) (rawD luD brD mulD bmD : F)
    (hp : PoolOk (if pool = [] then defaultPool else pool)) :
    generate rng n pool rawD luD brD mulD bmD =
      ((Gen.generate ⟨rng,n,if pool = [] then defaultPool else pool,rawD,luD,brD,mulD,bmD⟩).run
        State.init).map fun r => r.1 ++ epilogue := by
  unfold generate
  generalize (if pool = [] then defaultPool else pool) = pool' at hp ⊢
  simp only
  rw [if_neg hp.base]
  cases hrun : (Gen.generate ⟨rng,n,pool',rawD,luD,brD,mulD,bmD⟩).run State.init with
  | none => rfl
  | some r =>
    obtain ⟨hout,hready,_⟩ := (ready_generate _ hp id).result rfl hrun
    have hcheck : checkAliasBases r.1 = true := by
      rw [hout]
      exact checkAliasBases_grown hready.grown
    exact if_neg (not_not.mpr hcheck)

/-- Whatever is drawn, a program that is generated is safe, and one is generated whenever the
pool has two registers. -/
theorem generate_safe (rng : Tape F) (n : Nat) (pool : List Reg) (rawD luD brD mulD bmD : F)
    (h0 : 0 ∉ pool) (h8 : baseReg ∉ pool) :
    (∀ prog, generate rng n pool rawD luD brD mulD bmD = some prog → Safe prog) ∧
    (pool = [] ∨ (∃ a ∈ pool, ∃ b ∈ pool, a ≠ b) →
      ∃ prog, generate rng n pool rawD luD brD mulD bmD = some prog) := by
  have hp := poolOk h0 h8
  rw [generate_eq rng n pool rawD luD brD mulD bmD hp]
  constructor
  · intro prog hprog
    obtain ⟨r,hr,rfl⟩ := Option.map_eq_some_iff.mp hprog
    obtain ⟨hout,hready,hpend⟩ := (ready_generate _ hp id).result rfl hr
    rw [hout]
    exact (wellFormed_epilogue hready hpend).safe
  · intro htwo
    have hE : NoPair (if pool = [] then defaultPool else pool) → False := by
      intro hno
      split at hno
      case isTrue => exact hno ⟨5,by decide,6,by decide,by decide⟩
      case isFalse hne => exact hno (htwo.resolve_left hne)
    generalize (if pool = [] then defaultPool else pool) = pool' at hp hE ⊢
    obtain ⟨r,hr,_⟩ := (ready_generate ⟨rng,n,pool',rawD,luD,brD,mulD,bmD⟩ hp hE).total rfl
    exact ⟨_,congrArg _ hr⟩

def aliasTape : Tape Rat := ⟨fun k => if k ∈ [10,19,20] then 3/5 else 0,fun k => k⟩

/-- With a pool of two: a jump over a load and a store, both through aliases. -/
theorem generate_safe_two : ∃ prog, generate aliasTape 3 [5,6] 0 0 (1/2) 0 0 = some prog ∧
    prog.extract 13 23 = [.jal 6 1,.ri .addi 6 8 3,.nop,.nop,.load .lhu 6 9 6,.ri .addi 5 8 4,
      .nop,.nop,.store .sw 0 16 5,.label 1] ∧ Safe prog := by
  have hsafe := generate_safe aliasTape 3 [5,6] 0 0 (1/2) 0 0 (by decide) (by decide)
  obtain ⟨prog,hprog⟩ := hsafe.2 (.inr ⟨5,by decide,6,by decide,by decide⟩)
  have hbody : (generate aliasTape 3 [5,6] 0 0 (1/2) 0 0).map (fun l => l.extract 13 23) =
      some [.jal 6 1,.ri .addi 6 8 3,.nop,.nop,.load .lhu 6 9 6,.ri .addi 5 8 4,.nop,.nop,
        .store .sw 0 16 5,.label 1] := by
    decide +kernel
  rw [hprog] at hbody
  exact ⟨prog,hprog,Option.some.inj hbody,hsafe.1 prog hprog⟩

end

end RandomProg

end Rvntt
