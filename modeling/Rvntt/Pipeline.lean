import Rvntt.Core
set_option autoImplicit false

/-!
What one clock edge does to the pipeline registers, and the path the
instructions take through them.
-/

namespace Rvntt.Core

/-! ### The control signals -/

theorem exMdReq_valid {s : State} (h : exMdReq s = true) : s.idExQ.valid = true := by
  simp only [exMdReq,Bool.and_eq_true] at h
  exact h.1

theorem exStall_req {s : State} (h : exStall s = true) :
    s.idExQ.valid = true ∧ s.idExQ.ctrl.isMuldiv = true := by
  simp only [exStall,exMdReq,Bool.and_eq_true] at h
  exact h.1

theorem exStall_not_done {s : State} (h : exStall s = true) : exDone s = false := by
  simp [exDone,h]

theorem exDone_valid {s : State} (h : exDone s = true) :
    s.idExQ.valid = true ∧ exStall s = false := by
  simpa [exDone] using h

theorem trap_valid {x : Ex} (h : x.trap = true) : x.q.valid = true := by
  by_contra hv
  simp [Ex.trap,Ex.trapInfo,hv] at h

theorem mispredict_valid {x : Ex} (h : x.mispredict = true) : x.q.valid = true := by
  simp only [Ex.mispredict,Bool.and_eq_true] at h
  exact h.1

theorem mret_valid {x : Ex} (h : x.mret = true) : x.q.valid = true := by
  simp only [Ex.mret,Bool.and_eq_true] at h
  exact h.1

theorem exRedirect_not_stall {s : State} (h : exRedirect s = true) : exStall s = false := by
  simp only [exRedirect,Bool.and_eq_true,Bool.not_eq_true'] at h
  exact h.1

theorem exRedirect_valid {s : State} (h : exRedirect s = true) : s.idExQ.valid = true := by
  simp only [exRedirect,Bool.and_eq_true,Bool.or_eq_true] at h
  rcases h.2 with (ht | hm) | hp
  · exact trap_valid ht
  · exact mret_valid hm
  · exact mispredict_valid hp

theorem exRedirect_done {s : State} (h : exRedirect s = true) : exDone s = true := by
  simp [exDone,exRedirect_valid h,exRedirect_not_stall h]

theorem exRedirect_false {s : State} (hs : exStall s = false) (h : exRedirect s = false) :
    (ex s).trap = false ∧ (ex s).mret = false ∧ (ex s).mispredict = false := by
  simp only [exRedirect,hs,exTrap,exMispredict,Bool.not_false,Bool.true_and,
    Bool.or_eq_false_iff] at h
  exact ⟨h.1.1,h.1.2,h.2⟩

theorem idStall_parts {s : State} {i : In} (h : idStall s i = true) :
    s.ifIdQ.valid = true ∧ s.idExQ.valid = true ∧ s.idExQ.ctrl.memRead = true ∧
      s.idExQ.rdAddr ≠ 0 := by
  simp only [idStall,hazard,Bool.and_eq_true,bne_iff_ne] at h
  exact ⟨h.1.1,h.1.2.1.1,h.1.2.1.2,h.1.2.2⟩

/-! ### The edge -/

def heldEx (s : State) : IdEx :=
  {s.idExQ with fwdA := fwdDecay s.idExQ.fwdA, fwdB := fwdDecay s.idExQ.fwdB}

def fetched (s : State) (i : In) : IfId where
  valid := true
  pc := s.pcQ
  predTaken := i.pred.taken
  predTarget := i.pred.target
  predHit := i.pred.hit

def predNext (taken : Bool) (target pc : Word) : Word := if taken then target else pc+4

/-- Everything an edge can do to the front of the pipeline. -/
inductive Edge (s : State) (i : In) (s' : State) : Prop where
  | hold (hs : exStall s = true) (hpc : s'.pcQ = s.pcQ) (hid : s'.ifIdQ = s.ifIdQ)
      (hh : s'.insnHeldQ = true) (hex : s'.idExQ = heldEx s) (hmem : s'.exMemQ = {})
  | redirect (hs : exStall s = false) (hr : exRedirect s = true)
      (hpc : s'.pcQ = exRedirectTarget s) (hid : s'.ifIdQ = {pc := s.pcQ})
      (hh : s'.insnHeldQ = false) (hex : s'.idExQ = {}) (hmem : s'.exMemQ = exMemNext s)
  | loaduse (hs : exStall s = false) (hr : exRedirect s = false) (hl : idStall s i = true)
      (hpc : s'.pcQ = s.pcQ) (hid : s'.ifIdQ = s.ifIdQ) (hh : s'.insnHeldQ = true)
      (hex : s'.idExQ = {}) (hmem : s'.exMemQ = (ex s).latch (Muldiv.result s.muldiv))
  | advance (hs : exStall s = false) (hr : exRedirect s = false) (hl : idStall s i = false)
      (hpc : s'.pcQ = predNext i.pred.taken i.pred.target s.pcQ)
      (hid : s'.ifIdQ = fetched s i) (hh : s'.insnHeldQ = false)
      (hex : s'.idExQ = idIssue s i) (hmem : s'.exMemQ = (ex s).latch (Muldiv.result s.muldiv))

/-- The inversion lemma of `next`. -/
theorem edge (s : State) (i : In) : Edge s i (next s i) := by
  by_cases hs : exStall s = true
  · have hr : exRedirect s = false := by simp [exRedirect,hs]
    refine .hold hs ?_ ?_ ?_ ?_ ?_
    · simp [next,pcNext,hr,frontStall,hs]
    · simp [next,ifIdNext,hr,frontStall,hs]
    · simp [next,hr,frontStall,hs]
    · simp [next,idExNext,heldEx,hs]
    · simp [next,exMemNext,hs]
  rw [Bool.not_eq_true] at hs
  by_cases hr : exRedirect s = true
  · refine .redirect hs hr ?_ ?_ ?_ ?_ rfl
    · simp [next,pcNext,hr]
    · simp [next,ifIdNext,hr]
    · simp [next,hr]
    · simp [next,idExNext,hr,hs]
  rw [Bool.not_eq_true] at hr
  have ht : exTrap s = false := (exRedirect_false hs hr).1
  have hm : exMemNext s = (ex s).latch (Muldiv.result s.muldiv) := by
    simp [exMemNext,hs,ht]
  by_cases hl : idStall s i = true
  · refine .loaduse hs hr hl ?_ ?_ ?_ ?_ hm
    · simp [next,pcNext,hr,frontStall,hl]
    · simp [next,ifIdNext,hr,frontStall,hl]
    · simp [next,hr,frontStall,hl]
    · simp [next,idExNext,hl,hs]
  · rw [Bool.not_eq_true] at hl
    refine .advance hs hr hl ?_ ?_ ?_ ?_ hm
    · simp [next,pcNext,predNext,hr,frontStall,hl,hs]
    · simp [next,ifIdNext,fetched,hr,frontStall,hl,hs]
    · simp [next,frontStall,hl,hs]
    · simp [next,idExNext,hl,hs,hr]

/-! ### The multi-cycle unit -/

/-- The unit is busy in a cycle exactly if EX was held in the one before. -/
theorem activeQ_next (s : State) (i : In) : (next s i).muldiv.activeQ = exStall s := by
  have hm : (next s i).muldiv = Muldiv.next s.muldiv (muldivIn s) := rfl
  rw [hm]
  by_cases hr : exMdReq s = true
  · by_cases hd : Muldiv.done s.muldiv (muldivIn s) = true
    · rw [Muldiv.next_done hd]; simp [exStall,hd]
    · rw [Bool.not_eq_true] at hd
      by_cases ha : s.muldiv.activeQ = true
      · rw [Muldiv.next_advance hr ha hd]; simp [exStall,hr,hd,Muldiv.advance,ha]
      · rw [Bool.not_eq_true] at ha
        rw [Muldiv.next_start hr ha]; simp [exStall,hr,hd,Muldiv.load]
  · rw [Bool.not_eq_true] at hr
    rw [Muldiv.next_idle hr]; simp [exStall,hr]

/-! ### The path -/

theorem target_of_no_redirect {s : State} (hv : s.idExQ.valid = true)
    (hs : exStall s = false) (hr : exRedirect s = false) :
    exRedirectTarget s = predNext s.idExQ.predTaken s.idExQ.predTarget s.idExQ.pc := by
  obtain ⟨ht,hm,hp⟩ := exRedirect_false hs hr
  have hq : (ex s).q = s.idExQ := rfl
  simp only [Ex.mispredict,hq,hv,Bool.true_and,Bool.or_eq_false_iff,bne_eq_false_iff_eq,
    Bool.and_eq_false_iff] at hp
  rw [exRedirectTarget,Ex.redirectTarget,ht,hm,predNext,hp.1]
  cases hx : (ex s).ctrlXfer with
  | false => simp [Ex.pcPlus4,hq]
  | true =>
    have h2 := hp.2
    simp only [hx,Bool.true_eq_false,false_or] at h2
    simp [h2]

/-- `a` is the address of the oldest instruction not yet finished in EX; the
younger slots follow the predictions. -/
structure Flow (a : Word) (s : State) : Prop where
  exPc : s.idExQ.valid = true → s.idExQ.pc = a
  idPc : s.ifIdQ.valid = true → s.ifIdQ.pc =
    if s.idExQ.valid then predNext s.idExQ.predTaken s.idExQ.predTarget s.idExQ.pc else a
  fetchPc : s.ifIdQ.valid = true →
    s.pcQ = predNext s.ifIdQ.predTaken s.ifIdQ.predTarget s.ifIdQ.pc
  empty : s.ifIdQ.valid = false → s.idExQ.valid = false ∧ s.pcQ = a

def pathNext (s : State) (a : Word) : Word := if exDone s then exRedirectTarget s else a

theorem flow_reset (resetPc : Word) : Flow resetPc (reset resetPc) where
  exPc h := by simp [reset] at h
  idPc h := by simp [reset] at h
  fetchPc h := by simp [reset] at h
  empty _ := ⟨rfl,rfl⟩

theorem Flow.idPc_path {a : Word} {s : State} (h : Flow a s) (hv : s.ifIdQ.valid = true)
    (hs : exStall s = false) (hr : exRedirect s = false) : s.ifIdQ.pc = pathNext s a := by
  have hp := h.idPc hv
  cases he : s.idExQ.valid with
  | false => simpa [pathNext,exDone,he] using hp
  | true =>
    rw [pathNext,show exDone s = true by simp [exDone,he,hs]]
    rw [target_of_no_redirect he hs hr]
    simpa [he] using hp

theorem flow_next {a : Word} {s : State} (i : In) (h : Flow a s) :
    Flow (pathNext s a) (next s i) := by
  cases edge s i with
  | hold hs hpc hid _ hex _ =>
    have ha : pathNext s a = a := by simp [pathNext,exStall_not_done hs]
    rw [ha]
    constructor
    · intro hv; rw [hex] at hv ⊢; exact h.exPc hv
    · intro hv; rw [hid] at hv ⊢; rw [hex]; exact h.idPc hv
    · intro hv; rw [hid] at hv ⊢; rw [hpc]; exact h.fetchPc hv
    · intro hv; rw [hid] at hv; rw [hex,hpc]; exact h.empty hv
  | redirect hs hr hpc hid _ hex _ =>
    have ha : pathNext s a = exRedirectTarget s := by simp [pathNext,exRedirect_done hr]
    rw [ha]
    constructor
    · intro hv; simp [hex] at hv
    · intro hv; simp [hid] at hv
    · intro hv; simp [hid] at hv
    · intro _; exact ⟨by simp [hex],hpc⟩
  | loaduse hs hr hl hpc hid _ hex _ =>
    have hv := (idStall_parts hl).1
    constructor
    · intro h'; simp [hex] at h'
    · intro _; rw [hid,h.idPc_path hv hs hr]; simp [hex]
    · intro _; rw [hid,hpc]; exact h.fetchPc hv
    · intro h'; rw [hid,hv] at h'; cases h'
  | advance hs hr hl hpc hid _ hex _ =>
    constructor
    · intro hv
      rw [hex] at hv ⊢
      exact h.idPc_path hv hs hr
    · intro _
      rw [hid,hex]
      cases hv : s.ifIdQ.valid with
      | false =>
        obtain ⟨he,hp⟩ := h.empty hv
        simpa [idIssue,fetched,hv,pathNext,exDone,he] using hp
      | true => simpa [idIssue,fetched,hv] using h.fetchPc hv
    · intro _; rw [hid,hpc]; rfl
    · intro h'; simp [hid,fetched] at h'

/-- The address of the instruction the run has to finish next. -/
def archPc (resetPc : Word) (x : Nat → In) : Nat → Word
  | 0 => resetPc
  | t+1 => pathNext (run resetPc x t) (archPc resetPc x t)

theorem run_flow (resetPc : Word) (x : Nat → In) (t : Nat) :
    Flow (archPc resetPc x t) (run resetPc x t) := by
  induction t with
  | zero => exact flow_reset resetPc
  | succ t ih => exact flow_next (x t) ih

/-! ### What EX holds is a decoded word -/

structure Decoded (q : IdEx) : Prop where
  ctrl : q.ctrl = decode q.insn
  imm : q.imm = immgen q.insn q.ctrl.immFmt
  rs1Addr : q.rs1Addr = rs1Field q.insn
  rs2Addr : q.rs2Addr = rs2Field q.insn
  rdAddr : q.rdAddr = rdField q.insn

theorem decoded_next {s : State} (i : In) (h : s.idExQ.valid = true → Decoded s.idExQ)
    (hv : (next s i).idExQ.valid = true) : Decoded (next s i).idExQ := by
  cases edge s i with
  | hold hs _ _ _ hex _ =>
    have hd := h (exStall_req hs).1
    rw [hex]
    exact ⟨hd.ctrl,hd.imm,hd.rs1Addr,hd.rs2Addr,hd.rdAddr⟩
  | redirect _ _ _ _ _ hex _ => simp [hex] at hv
  | loaduse _ _ _ _ _ _ hex _ => simp [hex] at hv
  | advance _ _ _ _ _ _ hex _ => rw [hex]; exact ⟨rfl,rfl,rfl,rfl,rfl⟩

theorem run_decoded (resetPc : Word) (x : Nat → In) (t : Nat)
    (hv : (run resetPc x t).idExQ.valid = true) : Decoded (run resetPc x t).idExQ :=
  (machine resetPc).invariant (fun s => s.idExQ.valid = true → Decoded s.idExQ)
    (fun h => by cases h) (fun _ i h => decoded_next i h) x t hv

theorem quiet_of_not_done {s : State} (hd : s.idExQ.valid = true → Decoded s.idExQ)
    (h : exDone s = false) :
    (ex s).trap = false ∧ (ex s).mret = false ∧ (ex s).csrWen = false ∧ (ex s).dmemBe = 0 := by
  have hq : (ex s).q = s.idExQ := rfl
  cases hv : s.idExQ.valid with
  | false =>
    have ht : (ex s).trap = false := by simp [Ex.trap,Ex.trapInfo,hq,hv]
    refine ⟨ht,?_,?_,?_⟩
    · simp [Ex.mret,hq,hv]
    · simp [Ex.csrWen,hq,hv]
    · simp [Ex.dmemBe,Ex.storing,hq,hv]
  | true =>
    have hs : exStall s = true := by simpa [exDone,hv] using h
    have hc : s.idExQ.ctrl = {ctrlOp with isMuldiv := true, muldivOp := funct3 s.idExQ.insn} :=
      ((hd hv).ctrl ▸ decode_shape _).muldiv_eq (exStall_req hs).2
    have hx : (ex s).ctrlXfer = false := by simp [Ex.ctrlXfer,hq,hc,ctrlOp]
    refine ⟨?_,?_,?_,?_⟩
    · simp [Ex.trap,Ex.trapInfo,hq,hc,ctrlOp,Ex.targetMisaligned,hx]
    · simp [Ex.mret,hq,hc,ctrlOp]
    · simp [Ex.csrWen,hq,hc,ctrlOp]
    · simp [Ex.dmemBe,Ex.storing,hq,hc,ctrlOp]

/-! ### Retirement -/

def retires (s : State) : Bool := exDone s && !exTrap s

theorem memWbQ_two (resetPc : Word) (x : Nat → In) (t : Nat) :
    (run resetPc x (t+2)).memWbQ.valid = retires (run resetPc x t) ∧
    ((run resetPc x (t+2)).memWbQ.valid = true →
      (run resetPc x (t+2)).memWbQ.pc = (run resetPc x t).idExQ.pc ∧
      (run resetPc x (t+2)).memWbQ.insn = (run resetPc x t).idExQ.insn) := by
  have h : (run resetPc x (t+2)).memWbQ = memWbNext (run resetPc x (t+1)) (x (t+1)) := rfl
  have h' : (run resetPc x (t+1)).exMemQ = exMemNext (run resetPc x t) := rfl
  rw [h]
  simp only [memWbNext,h',exMemNext,retires,exDone]
  cases exTrap (run resetPc x t) <;> cases exStall (run resetPc x t) <;> simp [Ex.latch,ex]

/-- An instruction appears on the commit port two cycles after EX, unless it
trapped. -/
theorem commit_two (resetPc : Word) (x : Nat → In) (t : Nat) :
    (commit (run resetPc x (t+2))).isSome = retires (run resetPc x t) := by
  rw [← (memWbQ_two resetPc x t).1,commit]
  cases (run resetPc x (t+2)).memWbQ.valid <;> rfl

end Rvntt.Core
