import Rvntt.RefBpred
import Rvntt.Redirects
set_option autoImplicit false

/-!
The core and its predictor seen as a sequence of finished instructions: what the
prediction of an instruction was made from, and when.
-/

namespace Rvntt.Predicted

open Core (ex exRedirect exDone exStall exTrap)

structure Done where
  time : Nat
  pc : Word
  insn : Word
  upd : Bpred.Update
  redirect : Bool

def doneAt (s : Core.State) (t : Nat) : Done :=
  ⟨t,s.idExQ.pc,s.idExQ.insn,resolved s,exRedirect s⟩

/-! ### What a history determines -/

def content (p : PowerUp) : List Done → Bpred.State 8 3
  | [] => Bpred.reset p.btb p.ras
  | d :: h => Bpred.update (content p h) d.upd

def redirected (h : List Done) (i : Nat) : Bool := (h[i]?.map Done.redirect).getD true

@[simp] theorem redirected_nil (i : Nat) : redirected [] i = true := rfl

@[simp] theorem redirected_zero (d : Done) (h : List Done) :
    redirected (d :: h) 0 = d.redirect := rfl

/-- How many of the latest updates came too late for the lookup of the next
instruction. -/
def unseen (h : List Done) : Nat :=
  if redirected h 1 then 1 else if redirected h 2 then 2 else 3

def unseenOne (h : List Done) : Nat :=
  if redirected h 0 then 0 else if redirected h 1 then 1 else 2

def unseenTwo (h : List Done) : Nat := if redirected h 0 then 0 else 1

theorem unseen_cons (d : Done) (h : List Done) : unseen (d :: h) = unseenOne h+1 := by
  change (if redirected h 0 then 1 else if redirected h 1 then 2 else 3) =
    (if redirected h 0 then 0 else if redirected h 1 then 1 else 2)+1
  split_ifs <;> rfl

theorem unseenOne_cons {d : Done} (h : List Done) (hr : d.redirect = false) :
    unseenOne (d :: h) = unseenTwo h+1 := by
  rw [unseenOne,redirected_zero,hr,if_neg (by simp)]
  change (if redirected h 0 then 1 else 2) = (if redirected h 0 then 0 else 1)+1
  split_ifs <;> rfl

theorem unseenTwo_cons {d : Done} (h : List Done) (hr : d.redirect = false) :
    unseenTwo (d :: h) = 1 := by
  simp [unseenTwo,hr]

/-- The prediction of the instruction at `pc` that finishes next: none behind a
redirect, else what the tables said without the latest updates. -/
def predicted (p : PowerUp) (h : List Done) (pc : Word) : Option Word :=
  if redirected h 0 then none else Bpred.answer (content p (h.drop (unseen h))) pc

theorem predicted_cons (p : PowerUp) {d : Done} {h : List Done} {pc : Word}
    (hr : d.redirect = false) :
    predicted p (d :: h) pc = Bpred.answer (content p (h.drop (unseenOne h))) pc := by
  rw [predicted,redirected_zero,hr,if_neg (by simp),unseen_cons]
  rfl

def carried (taken : Bool) (target : Word) : Option Word := if taken then some target else none

/-! ### The predictions in flight -/

def tables (b : Bpred.State 8 3) : Bpred.State 8 3 :=
  {b with predTakenQ := false, predTargetQ := 0, predHitQ := false}

theorem tables_next (s : State) (i : In) :
    tables (next s i).bpred = Bpred.update (tables s.bpred) (resolved s.core) := by
  change tables (Bpred.next _ _) = _
  rw [Bpred.next]
  by_cases h : (!(bpredIn s i).hold || (bpredIn s i).flush) = true
  · rw [if_pos h]; rfl
  · rw [if_neg h]; rfl

/-- Where the predictions in the pipeline come from, after history `h`. -/
structure Slots (p : PowerUp) (h : List Done) (s : State) : Prop where
  tables : tables s.bpred = content p h
  ex : s.core.idExQ.valid = true →
    carried s.core.idExQ.predTaken s.core.idExQ.predTarget = predicted p h s.core.idExQ.pc
  id : s.core.ifIdQ.valid = true →
    carried s.core.ifIdQ.predTaken s.core.ifIdQ.predTarget =
      if s.core.idExQ.valid then Bpred.answer (content p (h.drop (unseenOne h))) s.core.ifIdQ.pc
      else predicted p h s.core.ifIdQ.pc
  fetch : held s =
    if s.core.ifIdQ.valid then
      Bpred.answer (content p (h.drop
        (if s.core.idExQ.valid then unseenTwo h else unseenOne h))) s.core.pcQ
    else none
  /-- A bubble in EX in front of a valid instruction is a load's, or a redirect's. -/
  bubble : s.core.ifIdQ.valid = true → s.core.idExQ.valid = false → redirected h 0 = false →
    ∀ d, h.head? = some d → d.upd.valid = false
  empty : s.core.ifIdQ.valid = false → s.core.idExQ.valid = false ∧ redirected h 0 = true

def extend (s : Core.State) (t : Nat) (h : List Done) : List Done :=
  if exDone s then doneAt s t :: h else h

theorem content_extend (p : PowerUp) {s : Core.State} (t : Nat) (h : List Done) :
    content p (extend s t h) = Bpred.update (content p h) (resolved s) := by
  rw [extend]
  cases hd : exDone s with
  | true => rfl
  | false =>
    refine (update_of_not_valid _ ?_).symm
    cases hv : s.idExQ.valid with
    | false => simp [resolved,Core.exBpUpd,hv]
    | true =>
      have hs : exStall s = true := by simpa [exDone,hv] using hd
      simp [resolved,Core.exBpUpd,hs]

theorem content_drop_of_not_valid (p : PowerUp) {h : List Done}
    (hb : ∀ d, h.head? = some d → d.upd.valid = false) : content p (h.drop 1) = content p h := by
  cases h with
  | nil => rfl
  | cons d h => exact (update_of_not_valid _ (hb d rfl)).symm

theorem slots_next {p : PowerUp} {h : List Done} {s : State} (i : In) (t : Nat)
    (hd : s.core.idExQ.valid = true → Core.Decoded s.core.idExQ) (hs : Slots p h s) :
    Slots p (extend s.core t h) (next s i) := by
  have htab : tables (next s i).bpred = content p (extend s.core t h) := by
    rw [tables_next,hs.tables,content_extend]
  have hn : (next s i).core = Core.next s.core (coreIn s i) := rfl
  cases Core.edge s.core (coreIn s i) with
  | hold hst hpc hid _ hex _ =>
    have hf : Core.frontStall s.core (coreIn s i) = true := by simp [Core.frontStall,hst]
    have hr : exRedirect s.core = false := by simp [exRedirect,hst]
    have hh := hold_next (i := i) hf hr
    have he : extend s.core t h = h := by simp [extend,Core.exStall_not_done hst]
    rw [← hn] at hpc hid hex
    rw [he] at htab ⊢
    refine ⟨htab,?_,?_,?_,?_,?_⟩
    · rw [hex]; exact hs.ex
    · rw [hex,hid]; exact hs.id
    · rw [hh,hex,hid,hpc]; exact hs.fetch
    · rw [hex,hid]; exact hs.bubble
    · rw [hex,hid]; exact hs.empty
  | redirect hst hr hpc hid _ hex _ =>
    have he : extend s.core t h = doneAt s.core t :: h := by
      simp [extend,Core.exRedirect_done hr]
    rw [← hn] at hpc hid hex
    rw [he] at htab ⊢
    refine ⟨htab,?_,?_,?_,?_,?_⟩
    · intro hv; rw [hex] at hv; cases hv
    · intro hv; rw [hid] at hv; cases hv
    · rw [flush_next hr,hid]; rfl
    · intro hv; rw [hid] at hv; cases hv
    · intro _; exact ⟨by rw [hex],hr⟩
  | loaduse hst hr hl hpc hid _ hex _ =>
    have hf : Core.frontStall s.core (coreIn s i) = true := by simp [Core.frontStall,hl]
    obtain ⟨hiv,hev,_⟩ := Core.idStall_parts hl
    have he : extend s.core t h = doneAt s.core t :: h := by
      simp [extend,exDone,hev,hst]
    have hrd : (doneAt s.core t).redirect = false := hr
    have hh := hold_next (i := i) hf hr
    have hid' := hs.id hiv
    have hfe := hs.fetch
    simp only [hev,hiv,if_true] at hid' hfe
    rw [← hn] at hpc hid hex
    rw [he] at htab ⊢
    refine ⟨htab,?_,?_,?_,?_,?_⟩
    · intro hv; rw [hex] at hv; cases hv
    · intro _
      rw [hex,hid,if_neg (by simp),hid',predicted_cons _ hrd]
    · rw [hh,hex,hid,hpc,if_pos hiv,if_neg (by simp),hfe,unseenOne_cons h hrd]
      rfl
    · intro _ _ _ d hd'
      obtain rfl := Option.some.inj hd'
      exact quiet_of_stall hd hf
    · intro hv; rw [hid,hiv] at hv; cases hv
  | advance hst hr hl hpc hid _ hex _ =>
    have hf : Core.frontStall s.core (coreIn s i) = false := by simp [Core.frontStall,hl,hst]
    have hh : held (next s i) = Bpred.answer (content p h) (next s i).core.pcQ := by
      rw [lookup_next hf hr,hn,hpc,← hs.tables]
      rfl
    rw [← hn] at hid hex
    have hidv : (next s i).core.ifIdQ.valid = true := by rw [hid]; rfl
    have hidp : (next s i).core.ifIdQ.pc = s.core.pcQ := by rw [hid]; rfl
    have hidc : carried (next s i).core.ifIdQ.predTaken (next s i).core.ifIdQ.predTarget =
        held s := by rw [hid]; rfl
    have hexv : (next s i).core.idExQ.valid = s.core.ifIdQ.valid := by rw [hex]; rfl
    have hexp : (next s i).core.idExQ.pc = s.core.ifIdQ.pc := by rw [hex]; rfl
    have hexc : carried (next s i).core.idExQ.predTaken (next s i).core.idExQ.predTarget =
        carried s.core.ifIdQ.predTaken s.core.ifIdQ.predTarget := by rw [hex]; rfl
    cases hiv : s.core.ifIdQ.valid with
    | false =>
      obtain ⟨hev,hr0⟩ := hs.empty hiv
      have he : extend s.core t h = h := by simp [extend,exDone,hev]
      have hfe := hs.fetch
      rw [hiv,if_neg (by simp)] at hfe
      rw [he] at htab ⊢
      refine ⟨htab,?_,?_,?_,?_,?_⟩
      · intro hv; rw [hexv,hiv] at hv; cases hv
      · intro _
        rw [hexv,hiv,if_neg (by simp),hidc,hfe,predicted,if_pos hr0]
      · rw [hidv,hexv,hiv,if_pos rfl,if_neg (by simp),hh,unseenOne,if_pos hr0]
        rfl
      · intro _ _ hr0'; rw [hr0] at hr0'; cases hr0'
      · intro hv; rw [hidv] at hv; cases hv
    | true =>
      have hid' := hs.id hiv
      have hfe := hs.fetch
      rw [hiv,if_pos rfl] at hfe
      cases hev : s.core.idExQ.valid with
      | false =>
        have he : extend s.core t h = h := by simp [extend,exDone,hev]
        rw [hev,if_neg (by simp)] at hid' hfe
        rw [he] at htab ⊢
        refine ⟨htab,?_,?_,?_,?_,?_⟩
        · intro _; rw [hexc,hexp,hid']
        · intro _
          rw [hexv,hiv,if_pos rfl,hidc,hidp,hfe]
        · rw [hidv,hexv,hiv,if_pos rfl,if_pos rfl,hh,unseenTwo]
          cases hr0 : redirected h 0 with
          | true => rfl
          | false =>
            rw [if_neg (by simp),content_drop_of_not_valid p (hs.bubble hiv hev hr0)]
        · intro _ hv; rw [hexv,hiv] at hv; cases hv
        · intro hv; rw [hidv] at hv; cases hv
      | true =>
        have he : extend s.core t h = doneAt s.core t :: h := by
          simp [extend,exDone,hev,hst]
        have hrd : (doneAt s.core t).redirect = false := hr
        rw [hev,if_pos rfl] at hid' hfe
        rw [he] at htab ⊢
        refine ⟨htab,?_,?_,?_,?_,?_⟩
        · intro _; rw [hexc,hexp,hid',predicted_cons _ hrd]
        · intro _
          rw [hexv,hiv,if_pos rfl,hidc,hidp,hfe,unseenOne_cons h hrd]
          rfl
        · rw [hidv,hexv,hiv,if_pos rfl,if_pos rfl,hh,unseenTwo_cons h hrd]
          rfl
        · intro _ hv; rw [hexv,hiv] at hv; cases hv
        · intro hv; rw [hidv] at hv; cases hv

/-! ### Histories of a run -/

def successor (d : Done) : Word := if d.upd.taken then d.upd.target else d.pc+4

structure Follows (q d : Done) : Prop where
  pc : d.pc = successor q
  time : d.time = q.time+occ d.insn+(loadUse q.insn d.insn).toNat+2*q.redirect.toNat

structure Fits (img : Rom.Image) (p : PowerUp) (h : List Done) (d : Done) : Prop where
  aligned : Aligned d.pc
  word : d.insn = img.word d.pc
  valid : d.upd.valid = (decode d.insn).transfer
  updPc : d.upd.pc = d.pc
  kind : d.upd.valid = true → d.upd.kind = (Ref.classify d.insn).code
  jump : (decode d.insn).jump = true → d.upd.taken = true
  target : d.upd.taken = true → d.upd.valid = true ∧ Aligned d.upd.target
  redirect : d.redirect = true ↔ predicted p h d.pc ≠ carried d.upd.taken d.upd.target
  transfer : d.redirect = true → d.upd.valid = true
  follows : ∀ q, h.head? = some q → Follows q d

inductive Legit (img : Rom.Image) (p : PowerUp) : List Done → Prop
  | nil : Legit img p []
  | cons {d : Done} {h : List Done} (hf : Fits img p h d) (hl : Legit img p h) :
      Legit img p (d :: h)

def Untrapped (s : Core.State) : Prop := exTrap s = false ∧ (ex s).mret = false

instance (s : Core.State) : Decidable (Untrapped s) := inferInstanceAs (Decidable (_ ∧ _))

theorem bpKind_eq {x : Ex} (hd : Core.Decoded x.q) (ht : x.q.ctrl.transfer = true) :
    x.bpKind = (Ref.classify x.q.insn).code := by
  have hs : Shape x.q.insn x.q.ctrl := hd.ctrl ▸ decode_shape _
  rw [Ex.bpKind,hd.rdAddr,hd.rs1Addr]
  generalize x.q.ctrl = c at ht hs
  cases hs with
  | jal ho =>
    have hc : Ref.classify x.q.insn =
        if Ex.isLink (rdField x.q.insn) then .call else .jump := by
      change opcode x.q.insn = _ at ho
      rw [opcode] at ho
      simp only [Ref.classify,ho]
      rfl
    rw [hc]
    cases Ex.isLink (rdField x.q.insn) <;> rfl
  | jalr ho =>
    have hc : Ref.classify x.q.insn =
        if Ex.isLink (rs1Field x.q.insn) && !Ex.isLink (rdField x.q.insn) then .ret
        else if Ex.isLink (rdField x.q.insn) then .call else .jump := by
      rw [opcode] at ho
      simp only [Ref.classify,ho]
      rw [if_neg (by decide)]
      change (if opcJalr = 0x67 ∧ Ex.isLink (rs1Field x.q.insn) ∧ ¬Ex.isLink (rdField x.q.insn)
        then _ else if Ex.isLink (rdField x.q.insn) then _ else _) = _
      simp [opcJalr]
    rw [hc]
    cases Ex.isLink (rs1Field x.q.insn) <;> cases Ex.isLink (rdField x.q.insn) <;> rfl
  | branch ho =>
    have hc : Ref.classify x.q.insn = .branch := by
      rw [opcode] at ho
      simp only [Ref.classify,ho]
      rfl
    rw [hc]
    rfl
  | _ => cases ht

theorem mispredict_iff {x : Ex} (hv : x.q.valid = true) : x.mispredict = true ↔
    carried x.q.predTaken x.q.predTarget ≠ carried x.ctrlXfer x.jumpTarget := by
  rw [Ex.mispredict,hv,Bool.true_and]
  cases x.q.predTaken <;> cases x.ctrlXfer <;> simp [carried]

theorem successor_doneAt {s : Core.State} (hu : Untrapped s) (t : Nat) :
    Core.exRedirectTarget s = successor (doneAt s t) := by
  have ht : (ex s).trap = false := hu.1
  rw [Core.exRedirectTarget,Ex.redirectTarget,ht,hu.2]
  rfl

theorem loadUse_of_transfer {insn : Word} (h : (decode insn).transfer = true) (n : Word) :
    loadUse insn n = false := by
  rcases (decode_shape insn).transfer_eq h with h | h | h <;> rw [loadUse,isLoad,h] <;> rfl

theorem exRedirect_untrapped {s : Core.State} (hs : exStall s = false) (hu : Untrapped s) :
    exRedirect s = (ex s).mispredict := by
  simp [exRedirect,hs,hu.1,hu.2,Core.exMispredict]

section run

variable (img : Rom.Image) (resetPc : Word) (p : PowerUp) (x : Nat → Rom.In)

/-- What has finished before cycle `t`, newest first. -/
def history : Nat → List Done
  | 0 => []
  | t+1 => extend (coreAt img resetPc p x t) t (history t)

variable {img resetPc}

theorem coreAt_run (t : Nat) : coreAt img resetPc p x t =
    Core.run resetPc (ports resetPc p (Rom.feed img resetPc p x)) t := by
  rw [coreAt,Rom.run_soc,run_core]

theorem run_slots (hr : Aligned resetPc) (t : Nat) :
    Slots p (history img resetPc p x t) (Rom.run img resetPc p x t).soc := by
  induction t with
  | zero =>
    refine ⟨rfl,?_,?_,rfl,?_,fun _ => ⟨rfl,rfl⟩⟩
    all_goals exact fun hv => by cases hv
  | succ t ih => exact slots_next _ t (run_onImage hr p x t).exDecoded ih

variable {p x}

theorem history_head {t : Nat} {q : Done} {h : List Done}
    (hh : history img resetPc p x t = q :: h) :
    q = doneAt (coreAt img resetPc p x q.time) q.time ∧
      exDone (coreAt img resetPc p x q.time) = true ∧
      history img resetPc p x q.time = h ∧ q.time < t ∧
      ∀ v, q.time < v → v < t → ¬exDone (coreAt img resetPc p x v) = true := by
  induction t with
  | zero => cases hh
  | succ t ih =>
    rw [history,extend] at hh
    by_cases hd : exDone (coreAt img resetPc p x t) = true
    · rw [if_pos hd] at hh
      obtain ⟨rfl,rfl⟩ := List.cons.inj hh
      exact ⟨rfl,hd,rfl,Nat.lt_succ_self t,fun v h1 h2 => by
        change t < v at h1
        omega⟩
    · rw [if_neg hd] at hh
      obtain ⟨hq,hqd,hqh,hlt,hquiet⟩ := ih hh
      refine ⟨hq,hqd,hqh,by omega,fun v h1 h2 => ?_⟩
      rcases Nat.lt_succ_iff_lt_or_eq.mp h2 with h | rfl
      · exact hquiet v h1 h
      · exact hd

theorem history_follows {t : Nat} {q : Done} {h : List Done}
    (hh : history img resetPc p x t = q :: h) (hd : exDone (coreAt img resetPc p x t) = true)
    (hu : Untrapped (coreAt img resetPc p x q.time))
    (hq : q.redirect = true → (decode q.insn).transfer = true) :
    Follows q (doneAt (coreAt img resetPc p x t) t) := by
  obtain ⟨hqe,hqd,_,hlt,hquiet⟩ := history_head hh
  simp only [coreAt_run] at hqe hqd hd hu hquiet ⊢
  have hnext : Clocked.NextAt
      (Core.finished resetPc (ports resetPc p (Rom.feed img resetPc p x))) q.time t :=
    ⟨hd,hlt,hquiet⟩
  obtain ⟨u,hu',htime⟩ := Core.finished_next resetPc _ hqd
  obtain rfl := hnext.unique hu'
  have hv := (Core.exDone_valid hd).1
  refine ⟨?_,?_⟩
  · change (Core.run _ _ t).idExQ.pc = _
    rw [(Core.run_flow resetPc _ t).exPc hv,Core.archPc_between resetPc _ hqd hnext,
      successor_doneAt hu q.time,← hqe]
  · have hr : q.redirect = exRedirect (Core.run resetPc
        (ports resetPc p (Rom.feed img resetPc p x)) q.time) := by rw [hqe]; rfl
    have hi : q.insn = (Core.run resetPc
        (ports resetPc p (Rom.feed img resetPc p x)) q.time).idExQ.insn := by rw [hqe]; rfl
    refine htime.trans ?_
    rw [Core.redirectCount,Core.bubbleCount,← hr,← hi]
    congr 2
    cases hb : q.redirect with
    | true => simp [loadUse_of_transfer (hq hb)]
    | false =>
      simp only [true_and,doneAt]
      cases loadUse q.insn _ <;> rfl

theorem done_fits (hr : Aligned resetPc) {t : Nat}
    (hd : exDone (coreAt img resetPc p x t) = true) (hu : Untrapped (coreAt img resetPc p x t))
    (hf : ∀ q, (history img resetPc p x t).head? = some q →
      Follows q (doneAt (coreAt img resetPc p x t) t)) :
    Fits img p (history img resetPc p x t) (doneAt (coreAt img resetPc p x t) t) := by
  have ho : OnImage img (Rom.run img resetPc p x t) := run_onImage hr p x t
  have hs : Slots p (history img resetPc p x t) _ := run_slots p x hr t
  obtain ⟨hv,hst⟩ := Core.exDone_valid hd
  have hdec := ho.exDecoded hv
  have htr := hu.1
  rw [exTrap] at htr
  have hvalid : (doneAt (coreAt img resetPc p x t) t).upd.valid =
      (decode (coreAt img resetPc p x t).idExQ.insn).transfer := by
    change Core.exBpUpd _ = _
    rw [← hdec.ctrl,Core.exBpUpd,hv,hst,hu.1]
    rfl
  have hx : ∀ h : (ex (coreAt img resetPc p x t)).ctrlXfer = true,
      (coreAt img resetPc p x t).idExQ.ctrl.transfer = true :=
    fun h => (Core.ctrlXfer_transfer h).2
  refine ⟨ho.exPc hv,ho.exWord hv,hvalid,rfl,?_,?_,?_,?_,?_,hf⟩
  · intro h
    rw [hvalid,← hdec.ctrl] at h
    exact bpKind_eq (x := ex (coreAt img resetPc p x t)) hdec h
  · intro h
    change (decode (coreAt img resetPc p x t).idExQ.insn).jump = true at h
    rw [← hdec.ctrl] at h
    change (ex (coreAt img resetPc p x t)).ctrlXfer = true
    simp [Ex.ctrlXfer,ex,hv,h]
  · intro h
    refine ⟨?_,?_⟩
    · rw [hvalid,← hdec.ctrl]
      exact hx h
    · refine Core.jumpTarget_aligned (x := ex (coreAt img resetPc p x t)) hdec (ho.exPc hv) h ?_
      rw [← (Core.transfer_trap (x := ex (coreAt img resetPc p x t)) hv hdec (hx h)).1]
      exact htr
  · have hp : carried (ex (coreAt img resetPc p x t)).q.predTaken
        (ex (coreAt img resetPc p x t)).q.predTarget = _ := hs.ex hv
    change exRedirect _ = true ↔ _
    rw [exRedirect_untrapped hst hu,mispredict_iff hv,hp]
    rfl
  · intro h
    rw [hvalid,← hdec.ctrl]
    refine ho.mispredict_transfer ?_
    rw [← exRedirect_untrapped hst hu]
    exact h

theorem history_legit (hr : Aligned resetPc) {t : Nat}
    (hu : ∀ u, u < t → Untrapped (coreAt img resetPc p x u)) :
    Legit img p (history img resetPc p x t) := by
  induction t with
  | zero => exact .nil
  | succ t ih =>
    have hl := ih fun u h => hu u (by omega)
    rw [history,extend]
    by_cases hd : exDone (coreAt img resetPc p x t) = true
    · rw [if_pos hd]
      refine .cons (done_fits hr hd (hu t (by omega)) ?_) hl
      intro q hq
      cases hh : history img resetPc p x t with
      | nil => rw [hh] at hq; cases hq
      | cons q' h =>
        rw [hh] at hq hl
        obtain rfl := Option.some.inj hq
        cases hl with
        | cons hf hl =>
          refine history_follows hh hd (hu _ ?_) fun h => hf.valid ▸ hf.transfer h
          have := (history_head hh).2.2.2.1
          omega
    · rw [if_neg hd]
      exact hl

end run

end Rvntt.Predicted
