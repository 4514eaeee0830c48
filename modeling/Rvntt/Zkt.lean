import Rvntt.History
import Rvntt.BpredRuns
set_option autoImplicit false

/-!
Timing depends on data only through control flow: two runs of one program, whatever
their loads and their noise return, lose and spend the same cycles as long as they
take the same path.
-/

namespace Rvntt

/-! ### Predictors that answer alike -/

namespace Bpred

variable {idxW rasW : Nat}

structure Alike (s t : State idxW rasW) : Prop where
  valid : s.btbValidQ = t.btbValidQ
  entry : ∀ i, s.btbValidQ i = true → s.btbQ i = t.btbQ i
  stack : stack s = stack t
  cnt : s.rasCntQ = t.rasCntQ
  bound : s.rasCntQ.toNat ≤ 2^rasW

variable {s t : State idxW rasW}

theorem alike_reset (btb btb' : BitVec idxW → Entry idxW) (ras ras' : BitVec rasW → Word) :
    Alike (reset btb ras) (reset btb' ras') where
  valid := rfl
  entry i h := by cases h
  stack := by simp [stack,reset]
  cnt := rfl
  bound := by simp [reset]

theorem Alike.hitAt_eq (h : Alike s t) (pc : Word) : hitAt s pc = hitAt t pc := by
  rw [hitAt,hitAt,← h.valid]
  cases hv : s.btbValidQ (index pc) with
  | false => rfl
  | true => rw [h.entry _ hv]

theorem Alike.entry_of_hit (h : Alike s t) {pc : Word} (hh : hitAt s pc = true) :
    s.btbQ (index pc) = t.btbQ (index pc) := by
  simp only [hitAt,Bool.and_eq_true] at hh
  exact h.entry _ hh.1

theorem Alike.answer_eq (h : Alike s t) (pc : Word) : answer s pc = answer t pc := by
  rw [Bpred.answer_eq,Bpred.answer_eq,← h.hitAt_eq,h.stack]
  cases hh : hitAt s pc with
  | false => rfl
  | true => rw [h.entry_of_hit hh]

theorem Alike.btbWe_eq (h : Alike s t) (u : Update) : btbWe s u = btbWe t u := by
  rw [btbWe,btbWe,h.hitAt_eq]

theorem Alike.btbWdata_eq (h : Alike s t) {u : Update} (hw : btbWe s u = true) :
    btbWdata s u = btbWdata t u := by
  rw [btbWdata,btbWdata]
  cases hk : u.taken with
  | true =>
    have hc : cntTaken s u = cntTaken t u := by
      rw [cntTaken,cntTaken,← h.hitAt_eq]
      cases hh : hitAt s u.pc with
      | false => rfl
      | true => rw [h.entry_of_hit hh]
    rw [if_pos rfl,if_pos rfl,hc]
  | false =>
    have hh : hitAt s u.pc = true := by
      simp only [btbWe,hk,Bool.false_or,Bool.and_eq_true] at hw
      exact hw.2.1
    rw [if_neg Bool.false_ne_true,if_neg Bool.false_ne_true,cntNtaken,cntNtaken,
      h.entry_of_hit hh]

theorem Alike.update (h : Alike s t) (u : Update) : Alike (update s u) (update t u) where
  valid := by simp only [Bpred.update,h.valid]
  entry i hv := by
    simp only [Bpred.update]
    rw [← h.btbWe_eq]
    by_cases hw : btbWe s u = true ∧ i = index u.pc
    · rw [if_pos hw,if_pos hw,h.btbWdata_eq hw.1]
    · rw [if_neg hw,if_neg hw]
      refine h.entry i ?_
      have hn : ¬(u.valid = true ∧ u.taken = true ∧ i = index u.pc) := by
        rintro ⟨h1,h2,h3⟩
        exact hw ⟨by simp [btbWe,h1,h2],h3⟩
      simpa only [Bpred.update,if_neg hn] using hv
  stack := by
    have hb := h.bound
    rw [(stack_update hb u).1,(stack_update (h.cnt ▸ hb) u).1,stackNext,stackNext,h.stack]
  cnt := by simp only [Bpred.update,h.cnt]
  bound := (stack_update h.bound u).2

/-- The target of a transfer that was not taken is not learnt. -/
theorem update_untaken {u v : Update} (hv : u.valid = v.valid) (hp : u.pc = v.pc)
    (hk : u.kind = v.kind) (ht : u.taken = v.taken) (hg : u.taken = true → u.target = v.target) :
    Bpred.update s u = Bpred.update s v := by
  obtain ⟨uv,up,uk,ut,ug⟩ := u
  obtain ⟨vv,vp,vk,vt,vg⟩ := v
  obtain rfl : uv = vv := hv
  obtain rfl : up = vp := hp
  obtain rfl : uk = vk := hk
  obtain rfl : ut = vt := ht
  cases ut with
  | false => rfl
  | true =>
    obtain rfl : ug = vg := hg rfl
    rfl

theorem Alike.of_tables (h : Alike s t) {s' t' : State idxW rasW} (hs : SameTables s s')
    (ht : SameTables t t') : Alike s' t' where
  valid := by rw [hs.btbValid,ht.btbValid,h.valid]
  entry := by rw [hs.btbValid,hs.btb,ht.btb]; exact h.entry
  stack := by rw [hs.stack_eq,ht.stack_eq,h.stack]
  cnt := by rw [hs.rasCnt,ht.rasCnt,h.cnt]
  bound := by rw [hs.rasCnt]; exact h.bound

end Bpred

namespace Predicted

open Core (ex exDone exStall exTrap exMdReq exRedirect exRedirectTarget idStall frontStall)

/-- Two instructions that finish alike: the same pc, direction, jump target, and the
same trap or return. -/
structure SameOutcome (s s' : Core.State) : Prop where
  pc : s.idExQ.pc = s'.idExQ.pc
  xfer : (ex s).ctrlXfer = (ex s').ctrlXfer
  target : (ex s).ctrlXfer = true → (ex s).jumpTarget = (ex s').jumpTarget
  trap : exTrap s = exTrap s'
  mret : (ex s).mret = (ex s').mret
  entry : exTrap s = true ∨ (ex s).mret = true → exRedirectTarget s = exRedirectTarget s'

theorem SameOutcome.redirectTarget {s s' : Core.State} (h : SameOutcome s s') :
    exRedirectTarget s = exRedirectTarget s' := by
  by_cases hc : exTrap s = true ∨ (ex s).mret = true
  · exact h.entry hc
  rw [not_or,Bool.not_eq_true,Bool.not_eq_true] at hc
  obtain ⟨ht,hm⟩ := hc
  have ht' := h.trap ▸ ht
  have hm' := h.mret ▸ hm
  rw [exTrap] at ht ht'
  rw [exRedirectTarget,exRedirectTarget,Ex.redirectTarget,Ex.redirectTarget,ht,ht',hm,hm',← h.xfer]
  cases hx : (ex s).ctrlXfer with
  | false => exact congrArg (·+4) h.pc
  | true => exact h.target hx

theorem SameOutcome.went {s s' : Core.State} (h : SameOutcome s s') :
    carried (ex s).ctrlXfer (ex s).jumpTarget = carried (ex s').ctrlXfer (ex s').jumpTarget := by
  rw [carried,carried,← h.xfer]
  cases hx : (ex s).ctrlXfer with
  | false => rfl
  | true => rw [h.target hx]

/-- The two IF/ID stages hold the same instruction under the same prediction. -/
structure SameId (s s' : Rom.State) : Prop where
  valid : s.soc.core.ifIdQ.valid = s'.soc.core.ifIdQ.valid
  pc : s.soc.core.ifIdQ.pc = s'.soc.core.ifIdQ.pc
  word : s.soc.core.ifIdQ.valid = true → idWord s = idWord s'
  pred : s.soc.core.ifIdQ.valid = true →
    carried s.soc.core.ifIdQ.predTaken s.soc.core.ifIdQ.predTarget =
      carried s'.soc.core.ifIdQ.predTaken s'.soc.core.ifIdQ.predTarget

/-- So do the two ID/EX registers; their operands may differ. -/
structure SameEx (q q' : IdEx) : Prop where
  valid : q.valid = q'.valid
  pc : q.pc = q'.pc
  word : q.valid = true → q.insn = q'.insn
  pred : q.valid = true → carried q.predTaken q.predTarget = carried q'.predTaken q'.predTarget

structure SameCount (m m' : Muldiv.State) : Prop where
  active : m.activeQ = m'.activeQ
  cnt : m.cntQ = m'.cntQ
  isDiv : m.isDivQ = m'.isDivQ

/-- Everything that decides how long things take: what is where, and what is predicted,
but no operand and no result. -/
structure Alike (s s' : Rom.State) : Prop where
  tables : Bpred.Alike s.soc.bpred s'.soc.bpred
  held : carried s.soc.bpred.predTakenQ s.soc.bpred.predTargetQ =
    carried s'.soc.bpred.predTakenQ s'.soc.bpred.predTargetQ
  pc : s.soc.core.pcQ = s'.soc.core.pcQ
  id : SameId s s'
  ex : SameEx s.soc.core.idExQ s'.soc.core.idExQ
  decoded : s.soc.core.idExQ.valid = true → Core.Decoded s.soc.core.idExQ
  decoded' : s'.soc.core.idExQ.valid = true → Core.Decoded s'.soc.core.idExQ
  md : SameCount s.soc.core.muldiv s'.soc.core.muldiv
  memValid : s.soc.core.exMemQ.valid = s'.soc.core.exMemQ.valid
  memPc : s.soc.core.exMemQ.pc = s'.soc.core.exMemQ.pc
  wbValid : s.soc.core.memWbQ.valid = s'.soc.core.memWbQ.valid
  wbPc : s.soc.core.memWbQ.pc = s'.soc.core.memWbQ.pc

theorem alike_reset (word : Word → Word) (q q' : Word) (resetPc : Word) (p p' : PowerUp) :
    Alike (Rom.machine ⟨word,q⟩ resetPc p).init (Rom.machine ⟨word,q'⟩ resetPc p').init where
  tables := Bpred.alike_reset _ _ _ _
  held := rfl
  pc := rfl
  id := ⟨rfl,rfl,fun h => (by cases h),fun h => (by cases h)⟩
  ex := ⟨rfl,rfl,fun h => (by cases h),fun h => (by cases h)⟩
  decoded h := by cases h
  decoded' h := by cases h
  md := ⟨rfl,rfl,rfl⟩
  memValid := rfl
  memPc := rfl
  wbValid := rfl
  wbPc := rfl

theorem predNext_carried (taken : Bool) (target pc : Word) :
    Core.predNext taken target pc = (carried taken target).getD (pc+4) := by
  cases taken <;> rfl

/-! ### What an edge does to IF/ID -/

theorem id_redirect (img : Rom.Image) {s : Rom.State} (i : Rom.In)
    (hr : exRedirect s.soc.core = true) :
    (Rom.next img s i).soc.core.ifIdQ = {pc := s.soc.core.pcQ} := by
  simp [Rom.next,Predicted.next,Core.next,Core.ifIdNext,hr]

theorem id_hold (img : Rom.Image) {s : Rom.State} {i : Rom.In}
    (hr : exRedirect s.soc.core = false)
    (hf : frontStall s.soc.core (coreIn s.soc (Rom.socIn s i)) = true) :
    (Rom.next img s i).soc.core.ifIdQ = s.soc.core.ifIdQ ∧
      idWord (Rom.next img s i) = idWord s := by
  refine ⟨?_,(if_pos ?_).trans rfl⟩
  · simp [Rom.next,Predicted.next,Core.next,Core.ifIdNext,hr,hf]
  · simp [Rom.next,Predicted.next,Core.next,hr,hf]

theorem id_fetch (img : Rom.Image) {s : Rom.State} {i : Rom.In}
    (hr : exRedirect s.soc.core = false)
    (hf : frontStall s.soc.core (coreIn s.soc (Rom.socIn s i)) = false) :
    (Rom.next img s i).soc.core.ifIdQ =
        Core.fetched s.soc.core (coreIn s.soc (Rom.socIn s i)) ∧
      idWord (Rom.next img s i) = img.word s.soc.core.pcQ := by
  refine ⟨?_,(if_neg ?_).trans rfl⟩
  · simp [Rom.next,Predicted.next,Core.next,Core.ifIdNext,hr,hf,Core.fetched]
  · simp [Rom.next,Predicted.next,Core.next,hr,hf]

theorem mem_fields (img : Rom.Image) (s : Rom.State) (i : Rom.In) :
    (Rom.next img s i).soc.core.exMemQ.valid =
      (!(exTrap s.soc.core || exStall s.soc.core) && s.soc.core.idExQ.valid) ∧
    (Rom.next img s i).soc.core.exMemQ.pc =
      if exTrap s.soc.core || exStall s.soc.core then 0 else s.soc.core.idExQ.pc := by
  have h : (Rom.next img s i).soc.core.exMemQ = Core.exMemNext s.soc.core := rfl
  rw [h,Core.exMemNext]
  cases exTrap s.soc.core || exStall s.soc.core <;> exact ⟨rfl,rfl⟩

namespace Alike

variable {s s' : Rom.State} (h : Alike s s')

include h

/-! ### What the two states agree on in a cycle -/

theorem ctrl (hv : s.soc.core.idExQ.valid = true) :
    s.soc.core.idExQ.ctrl = s'.soc.core.idExQ.ctrl := by
  rw [(h.decoded hv).ctrl,(h.decoded' (h.ex.valid ▸ hv)).ctrl,h.ex.word hv]

theorem rdAddr (hv : s.soc.core.idExQ.valid = true) :
    s.soc.core.idExQ.rdAddr = s'.soc.core.idExQ.rdAddr := by
  rw [(h.decoded hv).rdAddr,(h.decoded' (h.ex.valid ▸ hv)).rdAddr,h.ex.word hv]

theorem rs1Addr (hv : s.soc.core.idExQ.valid = true) :
    s.soc.core.idExQ.rs1Addr = s'.soc.core.idExQ.rs1Addr := by
  rw [(h.decoded hv).rs1Addr,(h.decoded' (h.ex.valid ▸ hv)).rs1Addr,h.ex.word hv]

theorem mdReq : exMdReq s.soc.core = exMdReq s'.soc.core := by
  rw [exMdReq,exMdReq,← h.ex.valid]
  cases hv : s.soc.core.idExQ.valid with
  | false => rfl
  | true => rw [h.ctrl hv]

theorem mdDone : Muldiv.done s.soc.core.muldiv (Core.muldivIn s.soc.core) =
    Muldiv.done s'.soc.core.muldiv (Core.muldivIn s'.soc.core) := by
  have hr : (Core.muldivIn s.soc.core).req = (Core.muldivIn s'.soc.core).req := h.mdReq
  rw [Muldiv.done,Muldiv.done,Muldiv.target,Muldiv.target,hr,h.md.active,h.md.cnt,h.md.isDiv]

theorem stall : exStall s.soc.core = exStall s'.soc.core := by
  rw [exStall,exStall,h.mdReq,h.mdDone]

theorem done : exDone s.soc.core = exDone s'.soc.core := by
  rw [exDone,exDone,h.ex.valid,h.stall]

theorem hazard (i i' : Rom.In) : idStall s.soc.core (coreIn s.soc (Rom.socIn s i)) =
    idStall s'.soc.core (coreIn s'.soc (Rom.socIn s' i')) := by
  rw [idStall,idStall,Rvntt.hazard,Rvntt.hazard,← h.id.valid,← h.ex.valid]
  cases hi : s.soc.core.ifIdQ.valid with
  | false => rfl
  | true =>
    have hw : (Core.ifId s.soc.core (coreIn s.soc (Rom.socIn s i))).insn =
        (Core.ifId s'.soc.core (coreIn s'.soc (Rom.socIn s' i'))).insn := h.id.word hi
    rw [Core.idCtrl,Core.idCtrl,hw]
    cases hv : s.soc.core.idExQ.valid with
    | false => rfl
    | true => rw [h.ctrl hv,h.rdAddr hv]

theorem front (i i' : Rom.In) : frontStall s.soc.core (coreIn s.soc (Rom.socIn s i)) =
    frontStall s'.soc.core (coreIn s'.soc (Rom.socIn s' i')) := by
  rw [frontStall,frontStall,h.hazard i i',h.stall]

theorem lookup : lookupPc s.soc = lookupPc s'.soc := by
  rw [lookupPc,lookupPc,predNext_carried,predNext_carried,h.held,h.pc]

/-! ### What the two instructions in EX agree on -/

variable (ho : exDone s.soc.core = true → SameOutcome s.soc.core s'.soc.core)

include ho

theorem trap (hs : exStall s.soc.core = false) : exTrap s.soc.core = exTrap s'.soc.core := by
  cases hd : exDone s.soc.core with
  | true => exact (ho hd).trap
  | false =>
    have hv : s.soc.core.idExQ.valid = false := by simpa [exDone,hs] using hd
    have hquiet : ∀ c : Core.State, c.idExQ.valid = false → exTrap c = false := by
      intro c hc
      rw [exTrap,Ex.trap,Ex.trapInfo,show (Core.ex c).q.valid = false from hc]
      rfl
    rw [hquiet _ hv,hquiet _ (h.ex.valid ▸ hv)]

theorem redirect : exRedirect s.soc.core = exRedirect s'.soc.core := by
  cases hd : exDone s.soc.core with
  | false =>
    have hquiet : ∀ c : Core.State, exDone c = false → exRedirect c = false := by
      intro c hc
      rw [← Bool.not_eq_true]
      intro hr
      rw [Core.exRedirect_done hr] at hc
      cases hc
    rw [hquiet _ hd,hquiet _ (h.done ▸ hd)]
  | true =>
    have hv := (Core.exDone_valid hd).1
    have o := ho hd
    have hm : Core.exMispredict s.soc.core = Core.exMispredict s'.soc.core := by
      have hp : carried (Core.ex s.soc.core).q.predTaken (Core.ex s.soc.core).q.predTarget =
          carried (Core.ex s'.soc.core).q.predTaken (Core.ex s'.soc.core).q.predTarget :=
        h.ex.pred hv
      rw [Bool.eq_iff_iff,Core.exMispredict,Core.exMispredict,mispredict_iff hv,
        mispredict_iff (h.ex.valid ▸ hv),o.went,hp]
    rw [exRedirect,exRedirect,h.stall,o.trap,o.mret,hm]

theorem bpUpd : Core.exBpUpd s.soc.core = Core.exBpUpd s'.soc.core := by
  change (exDone _ && _ && _) = (exDone _ && _ && _)
  rw [← h.done]
  cases hd : exDone s.soc.core with
  | false => rfl
  | true => rw [(ho hd).trap,h.ctrl (Core.exDone_valid hd).1]

theorem learn : Bpred.Alike (Bpred.update s.soc.bpred (resolved s.soc.core))
    (Bpred.update s'.soc.bpred (resolved s'.soc.core)) := by
  have hu := h.bpUpd ho
  cases hb : Core.exBpUpd s.soc.core with
  | false =>
    rw [update_of_not_valid _ (u := resolved s.soc.core) hb,
      update_of_not_valid _ (u := resolved s'.soc.core) (hu.symm.trans hb)]
    exact h.tables
  | true =>
    have hd : exDone s.soc.core = true := by
      simp only [Core.exBpUpd,Bool.and_eq_true] at hb
      simp [exDone,hb.1.1.1,by simpa using hb.1.1.2]
    have hv := (Core.exDone_valid hd).1
    have hk : (Core.ex s.soc.core).bpKind = (Core.ex s'.soc.core).bpKind := by
      rw [Ex.bpKind,Ex.bpKind]
      simp only [Core.ex,h.ctrl hv,h.rs1Addr hv,h.rdAddr hv]
      rfl
    rw [Bpred.update_untaken (s := s.soc.bpred) (u := resolved s.soc.core)
      (v := resolved s'.soc.core) hu h.ex.pc hk (ho hd).xfer (ho hd).target]
    exact h.tables.update _

/-! ### One edge -/

variable (word : Word → Word) (q q' : Word) (i i' : Rom.In)

theorem next_tables : Bpred.Alike (Rom.next ⟨word,q⟩ s i).soc.bpred
    (Rom.next ⟨word,q'⟩ s' i').soc.bpred :=
  (h.learn ho).of_tables (Bpred.next_tables s.soc.bpred (bpredIn s.soc (Rom.socIn s i)))
    (Bpred.next_tables s'.soc.bpred (bpredIn s'.soc (Rom.socIn s' i')))

theorem next_held : Predicted.held (Rom.next ⟨word,q⟩ s i).soc =
    Predicted.held (Rom.next ⟨word,q'⟩ s' i').soc := by
  have hr := h.redirect ho
  have hf := h.front i i'
  change Predicted.held (Predicted.next _ _) = Predicted.held (Predicted.next _ _)
  cases hc : exRedirect s.soc.core with
  | true => rw [flush_next hc,flush_next (hr ▸ hc)]
  | false =>
    have hc' := hr.symm.trans hc
    cases hs : frontStall s.soc.core (coreIn s.soc (Rom.socIn s i)) with
    | true =>
      rw [hold_next hs hc,hold_next (hf.symm.trans hs) hc']
      exact h.held
    | false =>
      rw [lookup_next hs hc,lookup_next (hf.symm.trans hs) hc',h.lookup,h.tables.answer_eq]

theorem next_pc : (Rom.next ⟨word,q⟩ s i).soc.core.pcQ =
    (Rom.next ⟨word,q'⟩ s' i').soc.core.pcQ := by
  change Core.pcNext _ _ = Core.pcNext _ _
  rw [Core.pcNext,Core.pcNext,← h.redirect ho,← h.front i i',h.pc]
  cases hc : exRedirect s.soc.core with
  | true => exact (ho (Core.exRedirect_done hc)).redirectTarget
  | false =>
    cases frontStall s.soc.core (coreIn s.soc (Rom.socIn s i)) with
    | true => rfl
    | false =>
      have hl := h.lookup
      rw [lookupPc,lookupPc,h.pc] at hl
      exact hl

theorem next_id : SameId (Rom.next ⟨word,q⟩ s i) (Rom.next ⟨word,q'⟩ s' i') := by
  have hr := h.redirect ho
  have hf := h.front i i'
  cases hc : exRedirect s.soc.core with
  | true =>
    have e := id_redirect ⟨word,q⟩ i hc
    have e' := id_redirect ⟨word,q'⟩ i' (hr.symm.trans hc)
    refine ⟨by rw [e,e'],by rw [e,e',h.pc],fun hv => ?_,fun hv => ?_⟩
    all_goals rw [e] at hv; cases hv
  | false =>
    have hc' := hr.symm.trans hc
    cases hs : frontStall s.soc.core (coreIn s.soc (Rom.socIn s i)) with
    | true =>
      obtain ⟨e,w⟩ := id_hold ⟨word,q⟩ hc hs
      obtain ⟨e',w'⟩ := id_hold ⟨word,q'⟩ hc' (hf.symm.trans hs)
      refine ⟨?_,?_,fun hv => ?_,fun hv => ?_⟩
      · rw [e,e']; exact h.id.valid
      · rw [e,e']; exact h.id.pc
      · rw [w,w']; exact h.id.word (e ▸ hv)
      · rw [e,e']; exact h.id.pred (e ▸ hv)
    | false =>
      obtain ⟨e,w⟩ := id_fetch ⟨word,q⟩ hc hs
      obtain ⟨e',w'⟩ := id_fetch ⟨word,q'⟩ hc' (hf.symm.trans hs)
      refine ⟨?_,?_,fun _ => ?_,fun _ => ?_⟩
      · rw [e,e']; rfl
      · rw [e,e']; exact h.pc
      · rw [w,w',h.pc]
      · rw [e,e']; exact h.held

theorem next_ex : SameEx (Rom.next ⟨word,q⟩ s i).soc.core.idExQ
    (Rom.next ⟨word,q'⟩ s' i').soc.core.idExQ := by
  change SameEx (Core.idExNext _ _) (Core.idExNext _ _)
  rw [Core.idExNext,Core.idExNext,← h.redirect ho,← h.stall,← h.hazard i i']
  cases exStall s.soc.core with
  | true => exact ⟨h.ex.valid,h.ex.pc,h.ex.word,h.ex.pred⟩
  | false =>
    cases idStall s.soc.core (coreIn s.soc (Rom.socIn s i)) || exRedirect s.soc.core with
    | true => exact ⟨rfl,rfl,fun _ => rfl,fun _ => rfl⟩
    | false => exact ⟨h.id.valid,h.id.pc,h.id.word,h.id.pred⟩

omit ho in
theorem next_md : SameCount (Rom.next ⟨word,q⟩ s i).soc.core.muldiv
    (Rom.next ⟨word,q'⟩ s' i').soc.core.muldiv := by
  change SameCount (Muldiv.next _ _) (Muldiv.next _ _)
  have hr : (Core.muldivIn s.soc.core).req = (Core.muldivIn s'.soc.core).req := h.mdReq
  have hst : Muldiv.start s.soc.core.muldiv (Core.muldivIn s.soc.core) =
      Muldiv.start s'.soc.core.muldiv (Core.muldivIn s'.soc.core) := by
    rw [Muldiv.start,Muldiv.start,hr,h.md.active]
  refine ⟨?_,?_,?_⟩
  · simp only [Muldiv.next,hr,hst,h.mdDone,h.md.active]
  · simp only [Muldiv.next,hr,hst,h.mdDone,h.md.cnt]
  · simp only [Muldiv.next,← hst,h.md.isDiv]
    cases hs : Muldiv.start s.soc.core.muldiv (Core.muldivIn s.soc.core) with
    | false => rfl
    | true =>
      simp only [Muldiv.start,Bool.and_eq_true] at hs
      exact congrArg (fun c : Ctrl => Muldiv.opIsDiv c.muldivOp) (h.ctrl (Core.exMdReq_valid hs.1))

theorem next_mem :
    (Rom.next ⟨word,q⟩ s i).soc.core.exMemQ.valid =
      (Rom.next ⟨word,q'⟩ s' i').soc.core.exMemQ.valid ∧
    (Rom.next ⟨word,q⟩ s i).soc.core.exMemQ.pc =
      (Rom.next ⟨word,q'⟩ s' i').soc.core.exMemQ.pc := by
  obtain ⟨e,e'⟩ := mem_fields ⟨word,q⟩ s i
  obtain ⟨f,f'⟩ := mem_fields ⟨word,q'⟩ s' i'
  have hq : (exTrap s.soc.core || exStall s.soc.core) =
      (exTrap s'.soc.core || exStall s'.soc.core) := by
    rw [← h.stall]
    cases hs : exStall s.soc.core with
    | true => rw [Bool.or_true,Bool.or_true]
    | false => rw [h.trap ho hs]
  rw [e,e',f,f',hq,h.ex.valid,h.ex.pc]
  exact ⟨rfl,rfl⟩

theorem next : Alike (Rom.next ⟨word,q⟩ s i) (Rom.next ⟨word,q'⟩ s' i') where
  tables := h.next_tables ho word q q' i i'
  held := h.next_held ho word q q' i i'
  pc := h.next_pc ho word q q' i i'
  id := h.next_id ho word q q' i i'
  ex := h.next_ex ho word q q' i i'
  decoded := Core.decoded_next _ h.decoded
  decoded' := Core.decoded_next _ h.decoded'
  md := h.next_md word q q' i i'
  memValid := (h.next_mem ho word q q' i i').1
  memPc := (h.next_mem ho word q q' i i').2
  wbValid := h.memValid
  wbPc := h.memPc

end Alike

/-! ### The whole run -/

/-- Where the time of a run can be seen. -/
structure Timing where
  imemAddr : Word
  commitValid : Bool
  commitPc : Word
  frontStall : Bool
  exRedirect : Bool
  deriving DecidableEq, Repr

def timing (s : Rom.State) (i : Rom.In) : Timing where
  imemAddr := Core.imemAddr s.soc.core
  commitValid := s.soc.core.memWbQ.valid
  commitPc := s.soc.core.memWbQ.pc
  frontStall := frontStall s.soc.core (coreIn s.soc (Rom.socIn s i))
  exRedirect := exRedirect s.soc.core

noncomputable def nthDone (img : Rom.Image) (resetPc : Word) (p : PowerUp) (x : Nat → Rom.In)
    (k : Nat) : Core.State :=
  Core.atFinish resetPc (ports resetPc p (Rom.feed img resetPc p x)) k

section run

variable (word : Word → Word) (q q' : Word) (resetPc : Word) (p p' : PowerUp)
  (x x' : Nat → Rom.In)

/-- Two runs of one program whose instructions finish alike one by one take the same
time cycle by cycle, whatever the data memory and the noise source return in each. -/
theorem timing_blind
    (h : ∀ k, SameOutcome (nthDone ⟨word,q⟩ resetPc p x k) (nthDone ⟨word,q'⟩ resetPc p' x' k))
    (t : Nat) : timing (Rom.run ⟨word,q⟩ resetPc p x t) (x t) =
      timing (Rom.run ⟨word,q'⟩ resetPc p' x' t) (x' t) := by
  have hc : ∀ (q : Word) (p : PowerUp) (x : Nat → Rom.In) (t : Nat),
      (Rom.run ⟨word,q⟩ resetPc p x t).soc.core =
        Core.run resetPc (ports resetPc p (Rom.feed ⟨word,q⟩ resetPc p x)) t :=
    fun q p x t => coreAt_run p x t
  obtain ⟨ha,ho⟩ := Clocked.lockstep
    (p := Core.finished resetPc (ports resetPc p (Rom.feed ⟨word,q⟩ resetPc p x)))
    (q := Core.finished resetPc (ports resetPc p' (Rom.feed ⟨word,q'⟩ resetPc p' x')))
    (fun t => Alike (Rom.run ⟨word,q⟩ resetPc p x t) (Rom.run ⟨word,q'⟩ resetPc p' x' t))
    (fun t u => SameOutcome
      (Core.run resetPc (ports resetPc p (Rom.feed ⟨word,q⟩ resetPc p x)) t)
      (Core.run resetPc (ports resetPc p' (Rom.feed ⟨word,q'⟩ resetPc p' x')) u))
    (alike_reset word q q' resetPc p p')
    (fun t ha => by rw [Core.finished,Core.finished,← hc,← hc,ha.done])
    h
    (fun t ha ho => ha.next (by rw [hc,hc]; exact ho) word q q' (x t) (x' t)) t
  rw [Core.finished,← hc,← hc] at ho
  rw [timing,timing,Core.imemAddr,Core.imemAddr,ha.pc,ha.wbValid,ha.wbPc,ha.front (x t) (x' t),
    ha.redirect ho]

end run

/-- `lb x5,0(x5)` and `divu x6,x5,x5` in turn. -/
def loadDivide (pc : Word) : Word := if pc.getLsbD 2 then 0x0252D333 else 0x00028283

theorem loadDivide_straight {y : Ex} (hv : y.q.valid = true) (hd : Core.Decoded y.q)
    (hw : y.q.insn = loadDivide y.q.pc) :
    y.trap = false ∧ y.mret = false ∧ y.ctrlXfer = false := by
  have hc := hd.ctrl
  rw [hw,loadDivide] at hc
  split at hc
  · have hk : decode 0x0252D333 = {ctrlOp with isMuldiv := true, muldivOp := 0b101} := by
      decide +kernel
    rw [hk] at hc
    simp [Ex.trap,Ex.trapInfo,Ex.mret,Ex.targetMisaligned,Ex.ctrlXfer,hv,hc,ctrlOp]
  · have hk : decode 0x00028283 = ctrlLoad f3Lb := by decide +kernel
    rw [hk] at hc
    simp [Ex.trap,Ex.trapInfo,Ex.mret,Ex.targetMisaligned,Ex.ctrlXfer,Ex.addrMisaligned,hv,hc,
      ctrlLoad,f3Lb,f3Lh,f3Lhu,f3Lw]

theorem loadDivide_nth (x : Nat → Rom.In) (k : Nat) :
    (nthDone ⟨loadDivide,0⟩ 0x80000000 {} x k).idExQ.pc = BitVec.ofNat 32 (0x80000000+4*k) ∧
    exTrap (nthDone ⟨loadDivide,0⟩ 0x80000000 {} x k) = false ∧
    (ex (nthDone ⟨loadDivide,0⟩ 0x80000000 {} x k)).mret = false ∧
    (ex (nthDone ⟨loadDivide,0⟩ 0x80000000 {} x k)).ctrlXfer = false := by
  obtain ⟨_,hdone,_,h0,hs⟩ := Core.finish_exact 0x80000000
    (ports 0x80000000 {} (Rom.feed ⟨loadDivide,0⟩ 0x80000000 {} x))
  have hq : ∀ k, exTrap (nthDone ⟨loadDivide,0⟩ 0x80000000 {} x k) = false ∧
      (ex (nthDone ⟨loadDivide,0⟩ 0x80000000 {} x k)).mret = false ∧
      (ex (nthDone ⟨loadDivide,0⟩ 0x80000000 {} x k)).ctrlXfer = false := by
    intro k
    have hd := (hdone _).mpr ⟨k,rfl⟩
    have ho := @run_onImage ⟨loadDivide,0⟩ 0x80000000 (by decide) {} x
      (Core.finish 0x80000000 (ports 0x80000000 {} (Rom.feed ⟨loadDivide,0⟩ 0x80000000 {} x)) k)
    have hc := @coreAt_run ⟨loadDivide,0⟩ 0x80000000 {} x
      (Core.finish 0x80000000 (ports 0x80000000 {} (Rom.feed ⟨loadDivide,0⟩ 0x80000000 {} x)) k)
    rw [coreAt] at hc
    have hv := (Core.exDone_valid hd).1
    have hdec := ho.exDecoded
    have hword := ho.exWord
    rw [hc] at hdec hword
    exact loadDivide_straight (y := ex (nthDone ⟨loadDivide,0⟩ 0x80000000 {} x k)) hv (hdec hv)
      (hword hv)
  refine ⟨?_,hq k⟩
  induction k with
  | zero => exact h0
  | succ k ih =>
    obtain ⟨ht,hm,hx⟩ := hq k
    rw [exTrap] at ht
    refine (hs k).2.trans ?_
    change Ex.redirectTarget (ex (nthDone ⟨loadDivide,0⟩ 0x80000000 {} x k)) = _
    rw [Ex.redirectTarget,ht,hm,hx]
    change (nthDone ⟨loadDivide,0⟩ 0x80000000 {} x k).idExQ.pc+4 = _
    rw [ih,Nat.mul_succ,← Nat.add_assoc]
    exact (BitVec.ofNat_add _ 4).symm

theorem timing_blind_loadDivide :
    timing (Rom.run ⟨loadDivide,0⟩ 0x80000000 {} (fun _ => {}) 5000) {} =
      timing (Rom.run ⟨loadDivide,0⟩ 0x80000000 {} (fun t => ⟨BitVec.ofNat 32 t,t % 3 == 0⟩) 5000)
        ⟨5000,false⟩ :=
  timing_blind loadDivide 0 0 0x80000000 {} {} (fun _ => {})
    (fun t => ⟨BitVec.ofNat 32 t,t % 3 == 0⟩) (fun k => by
      obtain ⟨hp,ht,hm,hx⟩ := loadDivide_nth (fun _ => {}) k
      obtain ⟨hp',ht',hm',hx'⟩ := loadDivide_nth (fun t => ⟨BitVec.ofNat 32 t,t % 3 == 0⟩) k
      constructor
      · rw [hp,hp']
      · rw [hx,hx']
      · intro h; rw [hx] at h; cases h
      · rw [ht,ht']
      · rw [hm,hm']
      · intro h; rw [ht,hm] at h; rcases h with h | h <;> cases h) 5000

end Predicted

end Rvntt
