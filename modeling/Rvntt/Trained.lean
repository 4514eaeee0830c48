import Rvntt.Predicted
set_option autoImplicit false

/-!
What the predictor knows about code that nothing modifies: an address with an entry
holds a control transfer, and every address in the machine is word-aligned.
-/

namespace Rvntt

/-! ### Alignment -/

def Aligned (a : Word) : Prop := a.extractLsb' 0 2 = 0

instance (a : Word) : Decidable (Aligned a) := inferInstanceAs (Decidable (_ = _))

theorem aligned_iff (a : Word) :
    Aligned a ↔ a.getLsbD 0 = false ∧ a.getLsbD 1 = false := by
  constructor
  · intro h
    have hb : ∀ k, k < 2 → a.getLsbD k = false := by
      intro k hk
      have := congrArg (fun b => b.getLsbD k) h
      simpa [BitVec.getLsbD_extractLsb',hk] using this
    exact ⟨hb 0 (by omega),hb 1 (by omega)⟩
  · rintro ⟨h0,h1⟩
    refine BitVec.eq_of_getLsbD_eq fun k hk => ?_
    rcases (by omega : k = 0 ∨ k = 1) with rfl | rfl
    · simpa [BitVec.getLsbD_extractLsb'] using h0
    · simpa [BitVec.getLsbD_extractLsb'] using h1

theorem getLsbD_low_zero {m n k : Nat} (g : BitVec m) (h : k < n) :
    (g ++ (0 : BitVec n)).getLsbD k = false := by
  rw [BitVec.getLsbD_append,if_pos h]
  exact BitVec.getLsbD_zero

theorem aligned_concat (g : BitVec 30) : Aligned (g ++ (0 : BitVec 2)) := by
  rw [aligned_iff]
  exact ⟨getLsbD_low_zero g (by omega),getLsbD_low_zero g (by omega)⟩

theorem aligned_iff_toNat (a : Word) : Aligned a ↔ a.toNat % 4 = 0 := by
  rw [Aligned,← BitVec.toNat_inj]
  simp [BitVec.extractLsb'_toNat]

theorem Aligned.add_four {a : Word} (h : Aligned a) : Aligned (a+4) := by
  rw [aligned_iff_toNat] at h ⊢
  rw [BitVec.toNat_add]
  change (a.toNat+4) % 2^32 % 4 = 0
  omega

theorem bit0_iff (a : Word) : a.getLsbD 0 = false ↔ a.toNat % 2 = 0 := by
  rw [BitVec.getLsbD,Nat.testBit_zero]
  simp

theorem index_tag_iff {idxW : Nat} (a b : Word) :
    (Bpred.index a : BitVec idxW) = Bpred.index b ∧
      (Bpred.tag a : BitVec (Bpred.tagW idxW)) = Bpred.tag b ↔
      a.extractLsb' 2 30 = b.extractLsb' 2 30 := by
  constructor
  · rintro ⟨hi,ht⟩
    refine BitVec.eq_of_getLsbD_eq fun k hk => ?_
    simp only [BitVec.getLsbD_extractLsb',hk,decide_true,Bool.true_and]
    by_cases h : k < idxW
    · have := congrArg (fun v => v.getLsbD k) hi
      simpa [Bpred.index,BitVec.getLsbD_extractLsb',h] using this
    · have := congrArg (fun v => v.getLsbD (k-idxW)) ht
      simpa [Bpred.tag,BitVec.getLsbD_extractLsb',Bpred.tagW,show k-idxW < 30-idxW by omega,
        show 2+idxW+(k-idxW) = 2+k by omega] using this
  · intro h
    have hb : ∀ k, 2 ≤ k → a.getLsbD k = b.getLsbD k := by
      intro k hk
      by_cases h32 : k < 32
      · have := congrArg (fun v => v.getLsbD (k-2)) h
        simpa [BitVec.getLsbD_extractLsb',show k-2 < 30 by omega,
          show 2+(k-2) = k by omega] using this
      · rw [BitVec.getLsbD_of_ge _ _ (by omega),BitVec.getLsbD_of_ge _ _ (by omega)]
    refine ⟨BitVec.eq_of_getLsbD_eq fun k hk => ?_,BitVec.eq_of_getLsbD_eq fun k hk => ?_⟩
    · simp only [Bpred.index,BitVec.getLsbD_extractLsb',hb (2+k) (by omega)]
    · simp only [Bpred.tag,BitVec.getLsbD_extractLsb',hb (2+idxW+k) (by omega)]

theorem Aligned.ext {a b : Word} (ha : Aligned a) (hb : Aligned b)
    (h : a.extractLsb' 2 30 = b.extractLsb' 2 30) : a = b := by
  rw [aligned_iff] at ha hb
  refine BitVec.eq_of_getLsbD_eq fun k hk => ?_
  rcases (by omega : k = 0 ∨ k = 1 ∨ 2 ≤ k) with rfl | rfl | h2
  · rw [ha.1,hb.1]
  · rw [ha.2,hb.2]
  · have := congrArg (fun v => v.getLsbD (k-2)) h
    simpa [BitVec.getLsbD_extractLsb',show k-2 < 30 by omega,
      show 2+(k-2) = k by omega] using this

theorem eq_of_index_tag {idxW : Nat} {a b : Word} (ha : Aligned a) (hb : Aligned b)
    (hi : (Bpred.index a : BitVec idxW) = Bpred.index b)
    (ht : (Bpred.tag a : BitVec (Bpred.tagW idxW)) = Bpred.tag b) : a = b :=
  ha.ext hb ((index_tag_iff a b).mp ⟨hi,ht⟩)

theorem immgen_even (insn : Word) {fmt : ImmFmt} (h : fmt = .b ∨ fmt = .j) :
    (immgen insn fmt).getLsbD 0 = false := by
  rcases h with rfl | rfl
  · rw [immgen,BitVec.getLsbD_signExtend,if_pos (by omega),getLsbD_low_zero _ (by omega)]
    rfl
  · rw [immgen,BitVec.getLsbD_signExtend,if_pos (by omega),getLsbD_low_zero _ (by omega)]
    rfl

namespace Core

theorem decoded_transfer {q : IdEx} (hd : Decoded q) (ht : q.ctrl.transfer = true) :
    q.ctrl = ctrlJal ∨ q.ctrl = ctrlJalr ∨ q.ctrl = ctrlBranch :=
  (hd.ctrl ▸ decode_shape q.insn : Shape q.insn q.ctrl).transfer_eq ht

theorem jumpTarget_even {x : Ex} (hd : Decoded x.q) (ha : Aligned x.q.pc)
    (ht : x.q.ctrl.transfer = true) : x.jumpTarget.getLsbD 0 = false := by
  rw [Ex.jumpTarget]
  cases hj : x.q.ctrl.jalr with
  | true => exact getLsbD_low_zero _ (by omega)
  | false =>
    have hfmt : x.q.ctrl.immFmt = .b ∨ x.q.ctrl.immFmt = .j := by
      rcases decoded_transfer hd ht with h | h | h
      · exact .inr (by rw [h]; rfl)
      · rw [h] at hj; cases hj
      · exact .inl (by rw [h]; rfl)
    have hi : x.q.imm.toNat % 2 = 0 := by
      rw [← bit0_iff,hd.imm]
      exact immgen_even _ hfmt
    have hp := (aligned_iff_toNat _).mp ha
    rw [if_neg (by simp),Ex.pcTarget,bit0_iff,BitVec.toNat_add]
    omega

theorem ctrlXfer_transfer {x : Ex} (h : x.ctrlXfer = true) :
    x.q.valid = true ∧ x.q.ctrl.transfer = true := by
  simp only [Ex.ctrlXfer,Bool.and_eq_true,Bool.or_eq_true] at h
  refine ⟨h.1,?_⟩
  rw [Ctrl.transfer,Bool.or_eq_true]
  exact h.2.imp (fun hb => hb.1) id

theorem jumpTarget_aligned {x : Ex} (hd : Decoded x.q) (ha : Aligned x.q.pc)
    (hx : x.ctrlXfer = true) (hm : x.targetMisaligned = false) : Aligned x.jumpTarget := by
  rw [aligned_iff]
  refine ⟨jumpTarget_even hd ha (ctrlXfer_transfer hx).2,?_⟩
  simpa [Ex.targetMisaligned,hx] using hm

theorem transfer_trap {x : Ex} (hv : x.q.valid = true) (hd : Decoded x.q)
    (ht : x.q.ctrl.transfer = true) : x.trap = x.targetMisaligned ∧ x.mret = false := by
  have h : x.q.ctrl.isIllegal = false ∧ x.q.ctrl.isCsr = false ∧ x.q.ctrl.isEcall = false ∧
      x.q.ctrl.isEbreak = false ∧ x.q.ctrl.memRead = false ∧ x.q.ctrl.memWrite = false ∧
      x.q.ctrl.isMret = false := by
    rcases decoded_transfer hd ht with h | h | h
    · rw [h]; decide
    · rw [h]; decide
    · rw [h]; decide
  obtain ⟨h1,h2,h3,h4,h5,h6,h7⟩ := h
  refine ⟨?_,by simp [Ex.mret,h7]⟩
  cases hm : x.targetMisaligned with
  | true => simp [Ex.trap,Ex.trapInfo,hv,h1,h2,h3,h4,hm]
  | false => simp [Ex.trap,Ex.trapInfo,hv,h1,h2,h3,h4,h5,h6,hm]

theorem redirectTarget_aligned {x : Ex} (hv : x.q.valid = true) (hd : Decoded x.q)
    (ha : Aligned x.q.pc) : Aligned x.redirectTarget := by
  rw [Ex.redirectTarget]
  by_cases ht : x.trap = true
  · rw [if_pos ht]
    exact aligned_concat _
  rw [if_neg ht]
  by_cases hm : x.mret = true
  · rw [if_pos hm]
    exact aligned_concat _
  rw [if_neg hm]
  by_cases hx : x.ctrlXfer = true
  · rw [if_pos hx]
    refine jumpTarget_aligned hd ha hx ?_
    rw [← (transfer_trap hv hd (ctrlXfer_transfer hx).2).1]
    simpa using ht
  · rw [if_neg hx]
    exact ha.add_four

end Core

namespace Predicted

open Bpred (index tag hitAt answer stack)

variable (img : Rom.Image)

def TransferAt (pc : Word) : Prop := (decode (img.word pc)).transfer = true

/-- The predictor has learnt from this code only. -/
structure Trained (b : Bpred.State 8 3) : Prop where
  hits : ∀ pc, Aligned pc → hitAt b pc = true → TransferAt img pc
  stack : ∀ a ∈ stack b, Aligned a
  count : b.rasCntQ.toNat ≤ 2^3

theorem trained_reset (p : PowerUp) : Trained img (Bpred.reset p.btb p.ras) where
  hits pc _ h := by simp [Bpred.hitAt,Bpred.reset] at h
  stack a h := by simp [Bpred.stack,Bpred.reset] at h
  count := by simp [Bpred.reset]

variable {img}

theorem Trained.answer {b : Bpred.State 8 3} (h : Trained img b) {pc g : Word}
    (ha : Aligned pc) (hg : answer b pc = some g) : TransferAt img pc ∧ Aligned g := by
  rw [Bpred.answer_eq] at hg
  cases hh : hitAt b pc with
  | false => simp [hh] at hg
  | true =>
    refine ⟨h.hits pc ha hh,?_⟩
    rw [hh,if_pos rfl,Bpred.entryAnswer] at hg
    split at hg
    · split at hg
      · obtain rfl := Option.some.inj hg
        exact aligned_concat _
      · cases hg
    split at hg
    · exact h.stack g (List.mem_of_mem_head? hg)
    · obtain rfl := Option.some.inj hg
      exact aligned_concat _

theorem hitAt_update {b : Bpred.State 8 3} {u : Bpred.Update} {pc : Word} (ha : Aligned pc)
    (hu : Aligned u.pc) (h : hitAt (Bpred.update b u) pc = true) :
    hitAt b pc = true ∨ (u.valid = true ∧ pc = u.pc) := by
  simp only [Bpred.hitAt,Bpred.update,Bool.and_eq_true,beq_iff_eq] at h
  by_cases hw : Bpred.btbWe b u = true ∧ (index pc : BitVec 8) = index u.pc
  · right
    have htag : Bpred.entTag (Bpred.btbWdata b u) = tag u.pc := by
      unfold Bpred.btbWdata
      split <;> simp
    have hv : u.valid = true := by
      have := hw.1
      simp only [Bpred.btbWe,Bool.and_eq_true] at this
      exact this.1
    rw [if_pos hw,htag] at h
    exact ⟨hv,eq_of_index_tag ha hu hw.2 h.2.symm⟩
  · left
    have hv : ¬(u.valid = true ∧ u.taken = true ∧ (index pc : BitVec 8) = index u.pc) := by
      rintro ⟨h1,h2,h3⟩
      exact hw ⟨by simp [Bpred.btbWe,h1,h2],h3⟩
    rw [if_neg hw,if_neg hv] at h
    simpa [Bpred.hitAt] using h

theorem trained_update {b : Bpred.State 8 3} (h : Trained img b) {u : Bpred.Update}
    (hu : u.valid = true → Aligned u.pc ∧ TransferAt img u.pc) :
    Trained img (Bpred.update b u) := by
  cases hv : u.valid with
  | false => rw [update_of_not_valid _ hv]; exact h
  | true =>
    obtain ⟨ha,ht⟩ := hu hv
    obtain ⟨hs,hc⟩ := Bpred.stack_update h.count u
    refine ⟨?_,?_,hc⟩
    · intro pc hp hh
      rcases hitAt_update hp ha hh with hh | ⟨_,rfl⟩
      · exact h.hits pc hp hh
      · exact ht
    · rw [hs,Bpred.stackNext]
      intro a hm
      split at hm
      · rcases List.mem_cons.mp (List.mem_of_mem_take hm) with rfl | hm
        · exact ha.add_four
        · exact h.stack a hm
      split at hm
      · exact h.stack a (List.mem_of_mem_tail hm)
      · exact h.stack a hm

/-! ### The words and predictions in flight -/

def idWord (s : Rom.State) : Word :=
  if s.soc.core.insnHeldQ then s.soc.core.insnHoldQ else s.imemQ

/-- A taken prediction for `pc` is for a transfer and goes to an aligned address. -/
def Plausible (img : Rom.Image) (pc : Word) (taken : Bool) (target : Word) : Prop :=
  taken = true → TransferAt img pc ∧ Aligned target

/-- Everything in the front of the pipeline comes from the code. -/
structure OnImage (img : Rom.Image) (s : Rom.State) : Prop where
  trained : Trained img s.soc.bpred
  pc : Aligned s.soc.core.pcQ
  pred : Plausible img s.soc.core.pcQ s.soc.bpred.predTakenQ s.soc.bpred.predTargetQ
  idPc : s.soc.core.ifIdQ.valid = true → Aligned s.soc.core.ifIdQ.pc
  idWord : s.soc.core.ifIdQ.valid = true → idWord s = img.word s.soc.core.ifIdQ.pc
  idPred : s.soc.core.ifIdQ.valid = true → Plausible img s.soc.core.ifIdQ.pc
    s.soc.core.ifIdQ.predTaken s.soc.core.ifIdQ.predTarget
  exDecoded : s.soc.core.idExQ.valid = true → Core.Decoded s.soc.core.idExQ
  exPc : s.soc.core.idExQ.valid = true → Aligned s.soc.core.idExQ.pc
  exWord : s.soc.core.idExQ.valid = true →
    s.soc.core.idExQ.insn = img.word s.soc.core.idExQ.pc
  exPred : s.soc.core.idExQ.valid = true → Plausible img s.soc.core.idExQ.pc
    s.soc.core.idExQ.predTaken s.soc.core.idExQ.predTarget

theorem pred_stalled (img : Rom.Image) {s : Rom.State} (i : Rom.In)
    (hf : Core.frontStall s.soc.core (coreIn s.soc (Rom.socIn s i)) = true)
    (hr : Core.exRedirect s.soc.core = false) :
    (Rom.next img s i).soc.bpred.predTakenQ = s.soc.bpred.predTakenQ ∧
      (Rom.next img s i).soc.bpred.predTargetQ = s.soc.bpred.predTargetQ := by
  have hb : (Rom.next img s i).soc.bpred =
      Bpred.next s.soc.bpred (bpredIn s.soc (Rom.socIn s i)) := rfl
  rw [hb]
  simp [Bpred.next,bpredIn,hf,hr,Bpred.update]

namespace OnImage

variable {s : Rom.State} (h : OnImage img s)

include h

theorem resolved_known (hv : (resolved s.soc.core).valid = true) :
    Aligned (resolved s.soc.core).pc ∧ TransferAt img (resolved s.soc.core).pc := by
  simp only [resolved,Core.exBpUpd,Bool.and_eq_true] at hv
  have hx := hv.1.1.1
  refine ⟨h.exPc hx,?_⟩
  change (decode (img.word s.soc.core.idExQ.pc)).transfer = true
  rw [← h.exWord hx,← (h.exDecoded hx).ctrl]
  exact hv.2

theorem trained_next (i : Rom.In) : Trained img (Rom.next img s i).soc.bpred := by
  have ht := trained_update h.trained h.resolved_known
  have hc : Bpred.stack (Rom.next img s i).soc.bpred =
      Bpred.stack (Bpred.update s.soc.bpred (resolved s.soc.core)) := by
    change Bpred.stack (Bpred.next _ _) = _
    rw [Bpred.next]
    split <;> rfl
  refine ⟨?_,?_,?_⟩
  · intro pc ha hh
    refine ht.hits pc ha (hh ▸ ?_)
    change _ = hitAt (Bpred.next _ _) pc
    rw [Bpred.next]
    split <;> rfl
  · rw [hc]
    exact ht.stack
  · rw [show (Rom.next img s i).soc.bpred.rasCntQ = _ from rasCnt_next s.soc (Rom.socIn s i)]
    exact ht.count

theorem lookup_aligned : Aligned (lookupPc s.soc) := by
  rw [lookupPc,Core.predNext]
  split
  · rename_i ht
    exact (h.pred ht).2
  · exact h.pc.add_four

theorem lookup_plausible : Plausible img (lookupPc s.soc) (Bpred.takenC s.soc.bpred (lookupPc s.soc))
    (Bpred.targetC s.soc.bpred (lookupPc s.soc)) := by
  intro ht
  exact h.trained.answer h.lookup_aligned (by simp [Bpred.answer,ht])

theorem redirectTarget_aligned (hr : Core.exRedirect s.soc.core = true) :
    Aligned (Core.exRedirectTarget s.soc.core) := by
  have hv := Core.exRedirect_valid hr
  exact Core.redirectTarget_aligned (x := Core.ex s.soc.core) hv (h.exDecoded hv) (h.exPc hv)

theorem next (i : Rom.In) : OnImage img (Rom.next img s i) := by
  have hn : (Rom.next img s i).soc.core =
      Core.next s.soc.core (coreIn s.soc (Rom.socIn s i)) := rfl
  have hb : (Rom.next img s i).soc.bpred =
      Bpred.next s.soc.bpred (bpredIn s.soc (Rom.socIn s i)) := rfl
  have hd := Core.decoded_next (coreIn s.soc (Rom.socIn s i)) h.exDecoded
  have htr := h.trained_next i
  have hhold : ∀ {s' : Rom.State}, s'.soc.core.insnHeldQ = true →
      s'.soc.core.insnHoldQ = Predicted.idWord s → Predicted.idWord s' = Predicted.idWord s := by
    intro s' h1 h2
    rw [Predicted.idWord,h1,if_pos rfl,h2]
  cases Core.edge s.soc.core (coreIn s.soc (Rom.socIn s i)) with
  | hold hs hpc hid hh hex _ =>
    have hf : Core.frontStall s.soc.core (coreIn s.soc (Rom.socIn s i)) = true := by
      simp [Core.frontStall,hs]
    have hr : Core.exRedirect s.soc.core = false := by simp [Core.exRedirect,hs]
    have hp := pred_stalled img i hf hr
    rw [← hn] at hpc hid hh hex hd
    refine ⟨htr,by rw [hpc]; exact h.pc,by rw [hpc,hp.1,hp.2]; exact h.pred,?_,?_,?_,hd,?_,?_,?_⟩
    · rw [hid]; exact h.idPc
    · rw [hid,hhold hh rfl]; exact h.idWord
    · rw [hid]; exact h.idPred
    · rw [hex]; exact h.exPc
    · rw [hex]; exact h.exWord
    · rw [hex]; exact h.exPred
  | redirect hs hr hpc hid _ hex _ =>
    have hp : (Rom.next img s i).soc.bpred.predTakenQ = false := by
      rw [hb]
      simp [Bpred.next,bpredIn,hr]
    rw [← hn] at hpc hid hex hd
    refine ⟨htr,by rw [hpc]; exact h.redirectTarget_aligned hr,?_,?_,?_,?_,hd,?_,?_,?_⟩
    · intro ht; rw [hp] at ht; cases ht
    · intro hv; rw [hid] at hv; cases hv
    · intro hv; rw [hid] at hv; cases hv
    · intro hv; rw [hid] at hv; cases hv
    · intro hv; rw [hex] at hv; cases hv
    · intro hv; rw [hex] at hv; cases hv
    · intro hv; rw [hex] at hv; cases hv
  | loaduse hs hr hl hpc hid hh hex _ =>
    have hf : Core.frontStall s.soc.core (coreIn s.soc (Rom.socIn s i)) = true := by
      simp [Core.frontStall,hl]
    have hp := pred_stalled img i hf hr
    rw [← hn] at hpc hid hh hex hd
    refine ⟨htr,by rw [hpc]; exact h.pc,by rw [hpc,hp.1,hp.2]; exact h.pred,?_,?_,?_,hd,?_,?_,?_⟩
    · rw [hid]; exact h.idPc
    · rw [hid,hhold hh rfl]; exact h.idWord
    · rw [hid]; exact h.idPred
    · intro hv; rw [hex] at hv; cases hv
    · intro hv; rw [hex] at hv; cases hv
    · intro hv; rw [hex] at hv; cases hv
  | advance hs hr hl hpc hid hh hex _ =>
    have hf : Core.frontStall s.soc.core (coreIn s.soc (Rom.socIn s i)) = false := by
      simp [Core.frontStall,hl,hs]
    have hp : (Rom.next img s i).soc.bpred.predTakenQ = Bpred.takenC s.soc.bpred (lookupPc s.soc) ∧
        (Rom.next img s i).soc.bpred.predTargetQ = Bpred.targetC s.soc.bpred (lookupPc s.soc) := by
      rw [hb]
      simp [Bpred.next,bpredIn,hf,hr]
    have hpc' : (Rom.next img s i).soc.core.pcQ = lookupPc s.soc := by rw [hn,hpc]; rfl
    rw [← hn] at hid hh hex hd
    refine ⟨htr,by rw [hpc']; exact h.lookup_aligned,?_,?_,?_,?_,hd,?_,?_,?_⟩
    · rw [hpc',hp.1,hp.2]; exact h.lookup_plausible
    · intro _; rw [hid]; exact h.pc
    · intro _
      rw [Predicted.idWord,hh,hid]
      rfl
    · intro _; rw [hid]; exact h.pred
    · rw [hex]; exact h.idPc
    · rw [hex]; exact h.idWord
    · rw [hex]; exact h.idPred

end OnImage

theorem run_onImage {resetPc : Word} (hr : Aligned resetPc) (p : PowerUp) (x : Nat → Rom.In)
    (t : Nat) : OnImage img (Rom.run img resetPc p x t) := by
  refine (Rom.machine img resetPc p).invariant (OnImage img) ?_ (fun _ i h => h.next i) x t
  refine ⟨trained_reset img p,hr,?_,?_,?_,?_,?_,?_,?_,?_⟩
  all_goals exact fun hv => by cases hv

end Predicted

end Rvntt
