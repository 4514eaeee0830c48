import Rvntt.Isa
import Rvntt.Muldiv
import Rvntt.Lib.Bits
import Rvntt.Lib.Clocked
import Rvntt.Lib.RestoringDiv
set_option autoImplicit false

/-!
`rvntt_muldiv` on its own: what it computes, and when, under any stream of requests.
-/

namespace Rvntt.Muldiv

/-! ### The loop -/

def loop (s : State) : RestoringDiv.State := ⟨s.remQ.toNat,s.quoQ.toNat⟩

theorem msb_toNat (x : Word) : x.msb.toNat = x.toNat/2^31 := by
  have hx := x.isLt
  rw [BitVec.msb_eq_decide]
  by_cases h : 2^(32-1) ≤ x.toNat
  · rw [decide_eq_true h,Bool.toNat_true]
    omega
  · rw [decide_eq_false h,Bool.toNat_false]
    omega

theorem shifted_toNat (s : State) : (shifted s).toNat = RestoringDiv.shifted 32 (loop s) := by
  rw [shifted,Bits.append_toNat,Bits.ofBool_toNat,msb_toNat]
  rfl

theorem diff_toNat (s : State) :
    (diff s).toNat = (2^33-s.divisorQ.toNat+(shifted s).toNat) % 2^33 := by
  have hd := s.divisorQ.isLt
  rw [diff,BitVec.toNat_sub,BitVec.toNat_setWidth,
    Nat.mod_eq_of_lt (show s.divisorQ.toNat < 2^33 by omega)]

theorem fits_iff {s : State} (h : s.remQ.toNat < s.divisorQ.toNat) :
    fits s = decide (s.divisorQ.toNat ≤ (shifted s).toNat) := by
  have hd := s.divisorQ.isLt
  have hq := s.quoQ.isLt
  have hs : (shifted s).toNat = 2*s.remQ.toNat+s.quoQ.toNat/2^31 := shifted_toNat s
  rw [fits,BitVec.msb_eq_decide,diff_toNat,Bool.eq_iff_iff,Bool.not_eq_true',
    decide_eq_false_iff_not,decide_eq_true_iff]
  change ¬2^32 ≤ _ ↔ _
  omega

theorem loop_advance {s : State} (hi : iterate s = true)
    (h : s.remQ.toNat < s.divisorQ.toNat) :
    loop (advance s) = RestoringDiv.step 32 s.divisorQ.toNat (loop s) := by
  have hd := s.divisorQ.isLt
  have hq := s.quoQ.isLt
  have hs : (shifted s).toNat = 2*s.remQ.toNat+s.quoQ.toNat/2^31 := shifted_toNat s
  have hquo : (s.quoQ.extractLsb' 0 31 ++ BitVec.ofBool (fits s)).toNat =
      2*(s.quoQ.toNat % 2^31)+(fits s).toNat := by
    rw [Bits.append_toNat,Bits.ofBool_toNat,Bits.extract_toNat,Nat.pow_zero,Nat.div_one,
      Nat.pow_one]
  rw [RestoringDiv.step,← shifted_toNat,loop,advance]
  simp only [hi,if_true]
  rw [BitVec.toNat_setWidth,hquo,fits_iff h]
  by_cases hf : s.divisorQ.toNat ≤ (shifted s).toNat
  · rw [if_pos hf,decide_eq_true hf,if_pos rfl,diff_toNat]
    congr 1
    omega
  · rw [if_neg hf,decide_eq_false hf,if_neg (by simp)]
    congr 1
    omega

@[simp] theorem after_divisorQ (op : BitVec 3) (a b : Word) (k : Nat) :
    (after op a b k).divisorQ = bMag op b := by
  induction k with
  | zero => rfl
  | succ k ih => rw [after_succ]; exact ih

theorem iterate_after {op : BitVec 3} (hop : opIsDiv op = true) (a b : Word) {k : Nat}
    (hk : k < 32) : iterate (after op a b k) = true := by
  rw [iterate,after_activeQ,after_isDivQ,hop,after_cntQ,Bool.true_and,Bool.true_and,
    BitVec.ule_iff_le,BitVec.le_def,BitVec.toNat_ofNat]
  change (k+1) % 2^6 ≤ 32
  omega

theorem loop_after {op : BitVec 3} (hop : opIsDiv op = true) (a : Word) {b : Word}
    (hb : 0 < (bMag op b).toNat) {k : Nat} (hk : k ≤ 32) : loop (after op a b k) =
      (RestoringDiv.step 32 (bMag op b).toNat)^[k] ⟨0,(aMag op a).toNat⟩ := by
  induction k with
  | zero => rfl
  | succ k ih =>
    have ih := ih (by omega)
    have hinv := RestoringDiv.inv_iterate hb (aMag op a).isLt (show k ≤ 32 by omega)
    rw [← ih] at hinv
    have hrem : (after op a b k).remQ.toNat < (after op a b k).divisorQ.toNat := by
      rw [after_divisorQ]
      exact hinv.rem_lt
    rw [after_succ,loop_advance (iterate_after hop a b (by omega)) hrem,ih,after_divisorQ,
      Function.iterate_succ_apply']

theorem div_registers {op : BitVec 3} (hop : opIsDiv op = true) (a : Word) {b : Word}
    (hb : 0 < (bMag op b).toNat) :
    (after op a b 32).quoQ.toNat = (aMag op a).toNat/(bMag op b).toNat ∧
    (after op a b 32).remQ.toNat = (aMag op a).toNat % (bMag op b).toNat := by
  have h := RestoringDiv.iterate_eq hb (aMag op a).isLt
  rw [← loop_after hop a hb (Nat.le_refl 32)] at h
  exact h

/-! ### Signs -/

def signed (neg : Bool) (n : Nat) : Int := if neg then -(n : Int) else n

theorem signed_tdiv (p q : Bool) (m n : Nat) :
    (signed p m).tdiv (signed q n) = signed (p ^^ q) (m/n) := by
  cases p <;> cases q <;> simp [signed]

theorem signed_tmod (p q : Bool) (m n : Nat) :
    (signed p m).tmod (signed q n) = signed p (m % n) := by
  cases p <;> cases q <;> simp only [signed,Int.neg_tmod,Int.tmod_neg,Int.ofNat_tmod,if_true,
    if_false,Bool.false_eq_true]

theorem negateIf_toNat (neg : Bool) (x : Word) :
    (negateIf neg x).toNat = if neg then (2^32-x.toNat) % 2^32 else x.toNat := by
  cases neg with
  | false => rfl
  | true =>
    rw [negateIf,if_pos rfl,if_pos rfl,show ~~~x+1 = -x from (BitVec.neg_eq_not_add x).symm,
      BitVec.toNat_neg]

theorem negateIf_eq (neg : Bool) (x : Word) :
    negateIf neg x = BitVec.ofInt 32 (signed neg x.toNat) := by
  have hx := x.isLt
  refine BitVec.eq_of_toNat_eq ?_
  rw [negateIf_toNat,BitVec.toNat_ofInt,signed]
  cases neg with
  | false =>
    simp only [Bool.false_eq_true,if_false]
    omega
  | true =>
    simp only [if_true]
    omega

theorem toInt_signed (a : Word) : a.toInt = signed a.msb (negateIf a.msb a).toNat := by
  have ha := a.isLt
  rw [negateIf_toNat,BitVec.toInt_eq_toNat_cond,BitVec.msb_eq_decide,signed]
  by_cases h : 2^(32-1) ≤ a.toNat
  · simp only [decide_eq_true h,if_true]
    split <;> omega
  · simp only [decide_eq_false h,Bool.false_eq_true,if_false]
    split <;> omega

/-! ### The product -/

theorem ext_toInt (s : Bool) (a : Word) :
    (BitVec.cons (s && a.msb) a).toInt = if s then a.toInt else a.toNat := by
  have ha := a.isLt
  have hc : (BitVec.cons (s && a.msb) a).toNat = (s && a.msb).toNat*2^32+a.toNat := by
    rw [BitVec.toNat_cons',Nat.shiftLeft_eq]
  rw [BitVec.toInt_eq_toNat_cond,hc]
  cases s with
  | false =>
    simp only [Bool.false_and,Bool.toNat_false,Bool.false_eq_true,if_false]
    split <;> omega
  | true =>
    rw [Bool.true_and,msb_toNat,if_pos rfl,BitVec.toInt_eq_toNat_cond]
    split <;> split <;> omega

theorem signExtend_mul (x y : BitVec 33) : (x.signExtend 66*y.signExtend 66).setWidth 64 =
    BitVec.ofInt 64 (x.toInt*y.toInt) := by
  have h : x.signExtend 66*y.signExtend 66 = BitVec.ofInt 66 (x.toInt*y.toInt) :=
    (BitVec.ofInt_mul _ _).symm
  refine BitVec.eq_of_toNat_eq ?_
  rw [h,BitVec.toNat_setWidth,BitVec.toNat_ofInt,BitVec.toNat_ofInt]
  generalize x.toInt*y.toInt = z
  omega

theorem low_ofInt (z : Int) : (BitVec.ofInt 64 z).extractLsb' 0 32 = BitVec.ofInt 32 z := by
  refine BitVec.eq_of_toNat_eq ?_
  rw [Bits.extract_toNat,BitVec.toNat_ofInt,BitVec.toNat_ofInt]
  omega

theorem high_ofInt (z : Int) :
    (BitVec.ofInt 64 z).extractLsb' 32 32 = BitVec.ofInt 32 (z/2^32) := by
  refine BitVec.eq_of_toNat_eq ?_
  rw [Bits.extract_toNat,BitVec.toNat_ofInt,BitVec.toNat_ofInt]
  omega

/-! ### What the unit presents -/

/-- Only the loop and the counter move after the start edge. -/
theorem after_eq (op : BitVec 3) (a b : Word) (k : Nat) : after op a b k =
    {load op a b with
      cntQ := (after op a b k).cntQ
      remQ := (after op a b k).remQ
      quoQ := (after op a b k).quoQ} := by
  induction k with
  | zero => rfl
  | succ k ih =>
    rw [after_succ,ih]
    rfl

theorem compute_mul {op : BitVec 3} (hop : opIsDiv op = false) (a b : Word) :
    compute op a b =
      if op.extractLsb' 0 2 = 0 then
        BitVec.ofInt 32 ((if aIsSigned op then a.toInt else a.toNat)*
          (if bIsSigned op then b.toInt else b.toNat))
      else BitVec.ofInt 32 ((if aIsSigned op then a.toInt else a.toNat)*
        (if bIsSigned op then b.toInt else b.toNat)/2^32) := by
  have h : compute op a b = result (load op a b) := by
    rw [compute,latency,hop]
    rfl
  have hf : mFull (load op a b) = BitVec.ofInt 64 ((if aIsSigned op then a.toInt else a.toNat)*
      (if bIsSigned op then b.toInt else b.toNat)) := by
    rw [mFull,signExtend_mul,← ext_toInt,← ext_toInt]
    rfl
  rw [h,result,show (load op a b).isDivQ = opIsDiv op from rfl,hop,if_neg (by simp),hf,low_ofInt,
    high_ofInt,show (load op a b).mHiQ = (op.extractLsb' 0 2 != 0) from rfl]
  by_cases h0 : op.extractLsb' 0 2 = 0 <;> simp [h0]

theorem compute_div {op : BitVec 3} (hop : opIsDiv op = true) (a b : Word) :
    compute op a b =
      if b = 0 then if op.getLsbD 1 then a else -1
      else if op.getLsbD 1 then BitVec.ofInt 32
        (signed (aNeg op a) ((aMag op a).toNat % (bMag op b).toNat))
      else BitVec.ofInt 32
        (signed (aNeg op a ^^ bNeg op b) ((aMag op a).toNat/(bMag op b).toNat)) := by
  have h : compute op a b = divResult (after op a b 32) := by
    rw [compute,latency,hop,result,after_isDivQ,hop]
    rfl
  have hd : divResult (after op a b 32) =
      if b == 0 then (if op.getLsbD 1 then a else 0xFFFFFFFF)
      else if op.getLsbD 1 then negateIf (aNeg op a) (after op a b 32).remQ
      else negateIf (aNeg op a ^^ bNeg op b) (after op a b 32).quoQ :=
    (congrArg divResult (after_eq op a b 32)).trans rfl
  rw [h,hd]
  by_cases hb : b = 0
  · rw [if_pos hb,if_pos (beq_iff_eq.mpr hb)]
    rfl
  · have hpos : 0 < (bMag op b).toNat := by
      have hne : b.toNat ≠ 0 := fun h => hb (BitVec.eq_of_toNat_eq h)
      have hlt := b.isLt
      rw [bMag,negateIf_toNat]
      split <;> omega
    obtain ⟨hq,hr⟩ := div_registers hop a hpos
    rw [if_neg hb,if_neg (show ¬(b == 0) = true from mt beq_iff_eq.mp hb),negateIf_eq,negateIf_eq,hq,hr]

theorem mag_signed {op : BitVec 3} (hs : dIsSigned op = true) (a b : Word) :
    a.toInt = signed (aNeg op a) (aMag op a).toNat ∧
    b.toInt = signed (bNeg op b) (bMag op b).toNat := by
  rw [aMag,bMag,aNeg,bNeg,hs,Bool.true_and,Bool.true_and]
  exact ⟨toInt_signed a,toInt_signed b⟩

theorem mag_unsigned {op : BitVec 3} (hs : dIsSigned op = false) (a b : Word) :
    (aNeg op a = false ∧ aMag op a = a) ∧ bNeg op b = false ∧ bMag op b = b := by
  rw [aMag,bMag,aNeg,bNeg,hs]
  exact ⟨⟨rfl,rfl⟩,rfl,rfl⟩

/-- The unit computes the M extension. -/
theorem compute_eq (op : BitVec 3) (a b : Word) :
    compute op a b = (Isa.MOp.ofFunct3 op).eval a b := by
  have hop : op = 0 ∨ op = 1 ∨ op = 2 ∨ op = 3 ∨ op = 4 ∨ op = 5 ∨ op = 6 ∨ op = 7 := by
    revert op
    decide
  rcases hop with rfl | rfl | rfl | rfl | rfl | rfl | rfl | rfl
  · exact compute_mul rfl a b
  · exact compute_mul rfl a b
  · exact compute_mul rfl a b
  · refine (compute_mul rfl a b).trans ?_
    change BitVec.ofInt 32 ((a.toNat : Int)*b.toNat/2^32) = BitVec.ofNat 32 (a.toNat*b.toNat/2^32)
    rw [← BitVec.ofInt_natCast]
    norm_cast
  · obtain ⟨ha,hb⟩ := mag_signed (show dIsSigned 4 = true from rfl) a b
    refine (compute_div rfl a b).trans ?_
    change (if b = 0 then -1 else BitVec.ofInt 32 _) = if b = 0 then _ else if _ then _ else _
    rw [ha,hb,signed_tdiv]
    by_cases ho : a = Isa.intMin ∧ b = -1
    · obtain ⟨rfl,rfl⟩ := ho
      decide
    · rw [if_neg ho]
  · refine (compute_div rfl a b).trans ?_
    obtain ⟨⟨ha,hma⟩,hb,hmb⟩ := mag_unsigned (show dIsSigned 5 = false from rfl) a b
    rw [ha,hb,hma,hmb]
    change (if b = 0 then -1 else BitVec.ofInt 32 ((a.toNat/b.toNat : Nat) : Int)) = _
    rw [BitVec.ofInt_natCast]
    rfl
  · obtain ⟨ha,hb⟩ := mag_signed (show dIsSigned 6 = true from rfl) a b
    refine (compute_div rfl a b).trans ?_
    change (if b = 0 then a else BitVec.ofInt 32 _) = if b = 0 then _ else if _ then _ else _
    rw [ha,hb,signed_tmod]
    by_cases ho : a = Isa.intMin ∧ b = -1
    · obtain ⟨rfl,rfl⟩ := ho
      decide
    · rw [if_neg ho]
  · refine (compute_div rfl a b).trans ?_
    obtain ⟨⟨ha,hma⟩,_,hmb⟩ := mag_unsigned (show dIsSigned 7 = false from rfl) a b
    rw [ha,hma,hmb]
    change (if b = 0 then a else BitVec.ofInt 32 ((a.toNat % b.toNat : Nat) : Int)) = _
    rw [BitVec.ofInt_natCast]
    rfl

/-! ### Runs -/

/-- Reset reaches the sequencer only. -/
def reset (s : State) : State := {s with activeQ := false, cntQ := 0, isDivQ := false}

def machine (s0 : State) : Clocked.Machine State In := ⟨reset s0,next⟩

section run

variable (s0 : State) (x : Nat → In)

abbrev run (t : Nat) : State := (machine s0).run x t

theorem run_succ (t : Nat) : run s0 x (t+1) = next (run s0 x t) (x t) := rfl

def Idle (t : Nat) : Prop := (run s0 x t).activeQ = false

def DoneAt (t : Nat) : Prop := done (run s0 x t) (x t) = true

def Requests (t k : Nat) : Prop := ∀ j, j ≤ k → (x (t+j)).req = true

def span (op : BitVec 3) : Nat := if op.toNat < 4 then 1 else 33

theorem span_eq (op : BitVec 3) : span op = latency op := by
  revert op
  decide

variable {s0 x}

theorem Requests.mono {t k j : Nat} (h : Requests x t k) (hj : j ≤ k) : Requests x t j :=
  fun i hi => h i (by omega)

theorem Requests.snoc {t k : Nat} (h : Requests x t k) (hr : (x (t+k+1)).req = true) :
    Requests x t (k+1) := by
  intro j hj
  rcases Nat.lt_or_ge j (k+1) with hlt | hge
  · exact h j (by omega)
  · obtain rfl : j = k+1 := by omega
    exact hr

theorem not_done_of_idle {t : Nat} (h : Idle s0 x t) : ¬DoneAt s0 x t := by
  rw [Idle] at h
  simp [DoneAt,done,h]

theorem run_after {t : Nat} (hi : Idle s0 x t) {k : Nat}
    (hk : k+1 ≤ span (x t).op) (hr : Requests x t k) :
    run s0 x (t+k+1) = after (x t).op (x t).a (x t).b k := by
  rw [span_eq] at hk
  induction k with
  | zero => exact next_start (hr 0 (Nat.le_refl 0)) hi
  | succ k ih =>
    have ih := ih (by omega) (hr.mono (by omega))
    have hreq : (x (t+k+1)).req = true := hr (k+1) (Nat.le_refl _)
    rw [show t+(k+1)+1 = t+k+1+1 by omega,run_succ,ih,after_succ]
    refine next_advance hreq (after_activeQ _ _ _ _) ?_
    rw [done_after _ _ _ (by omega) hreq,decide_eq_false (by omega)]

theorem done_iff {t : Nat} (hi : Idle s0 x t) {k : Nat} (hk : k ≤ span (x t).op)
    (hr : Requests x t k) : DoneAt s0 x (t+k) ↔ k = span (x t).op := by
  have hb := latency_bounds (x t).op
  rw [← span_eq] at hb
  cases k with
  | zero => exact ⟨fun h => absurd h (not_done_of_idle hi),fun h => by omega⟩
  | succ k =>
    have hreq : (x (t+k+1)).req = true := hr (k+1) (Nat.le_refl _)
    rw [DoneAt,← Nat.add_assoc,run_after hi hk (hr.mono (by omega)),
      done_after _ _ _ (span_eq (x t).op ▸ hk) hreq,decide_eq_true_iff,span_eq]

theorem result_at {t : Nat} (hi : Idle s0 x t) (hr : Requests x t (span (x t).op)) :
    result (run s0 x (t+span (x t).op)) = (Isa.MOp.ofFunct3 (x t).op).eval (x t).a (x t).b := by
  have hb := latency_bounds (x t).op
  rw [← compute_eq,compute]
  rw [span_eq] at hr ⊢
  obtain ⟨k,hk⟩ : ∃ k, latency (x t).op = k+1 := ⟨latency (x t).op-1,by omega⟩
  rw [hk,Nat.add_sub_cancel,← Nat.add_assoc,run_after hi (by rw [span_eq]; omega)
    (hr.mono (by omega))]

theorem idle_after_done {t : Nat} (h : DoneAt s0 x t) : Idle s0 x (t+1) := next_done h

theorem idle_after_drop {t : Nat} (h : (x t).req = false) : Idle s0 x (t+1) := next_idle h

theorem not_done_of_drop {t : Nat} (h : (x t).req = false) : ¬DoneAt s0 x t := by
  simp [DoneAt,done,h]

/-- A unit that runs was started by a request that has stayed high. -/
theorem started {u : Nat} (h : ¬Idle s0 x u) :
    ∃ t k, u = t+k+1 ∧ Idle s0 x t ∧ k+1 ≤ span (x t).op ∧ Requests x t k := by
  induction u with
  | zero => exact absurd rfl h
  | succ u ih =>
    have hreq : (x u).req = true := by
      by_contra hr
      exact h (idle_after_drop (by simpa using hr))
    by_cases hi : Idle s0 x u
    · refine ⟨u,0,rfl,hi,?_,fun j hj => ?_⟩
      · rw [span_eq]
        exact (latency_bounds _).1
      · obtain rfl : j = 0 := by omega
        exact hreq
    · obtain ⟨t,k,rfl,ht,hk,hr⟩ := ih hi
      have hr' := hr.snoc hreq
      have hd : ¬DoneAt s0 x (t+(k+1)) := fun hd => h (idle_after_done hd)
      rw [done_iff ht hk hr'] at hd
      exact ⟨t,k+1,by omega,ht,by omega,hr'⟩

/-- For every trace of requests. An operation that starts in cycle `t` and is asked for
to the end is `done` after its span and in no cycle before, with the result the
specification gives for the operands of cycle `t`, and leaves the unit idle. One that is
dropped is never `done`, and leaves the unit idle. There is no other `done`. -/
theorem muldiv_unit :
    (∀ t, Idle s0 x t → (x t).req = true →
      (∀ k, k ≤ span (x t).op → Requests x t k → (DoneAt s0 x (t+k) ↔ k = span (x t).op)) ∧
      (Requests x t (span (x t).op) →
        result (run s0 x (t+span (x t).op)) =
          (Isa.MOp.ofFunct3 (x t).op).eval (x t).a (x t).b ∧
        Idle s0 x (t+span (x t).op+1)) ∧
      (∀ k, k < span (x t).op → Requests x t k → (x (t+k+1)).req = false →
        (∀ j, j ≤ k+1 → ¬DoneAt s0 x (t+j)) ∧ Idle s0 x (t+k+1+1))) ∧
    (∀ u, DoneAt s0 x u → ∃ t, Idle s0 x t ∧ u = t+span (x t).op ∧
      Requests x t (span (x t).op)) := by
  refine ⟨fun t hi _ => ⟨fun k => done_iff hi,fun hr => ?_,fun k hk hr hd => ?_⟩,fun u hu => ?_⟩
  · exact ⟨result_at hi hr,idle_after_done ((done_iff hi (Nat.le_refl _) hr).mpr rfl)⟩
  · refine ⟨fun j hj => ?_,idle_after_drop hd⟩
    rcases Nat.lt_or_ge j (k+1) with hlt | hge
    · rw [done_iff hi (by omega) (hr.mono (by omega))]
      omega
    · obtain rfl : j = k+1 := by omega
      exact not_done_of_drop hd
  · have hn : ¬Idle s0 x u := fun h => not_done_of_idle h hu
    obtain ⟨t,k,rfl,ht,hk,hr⟩ := started hn
    have hreq : (x (t+k+1)).req = true := by
      by_contra h
      exact not_done_of_drop (by simpa using h) hu
    have hr' := hr.snoc hreq
    have he := (done_iff ht hk hr').mp hu
    exact ⟨t,ht,by omega,he ▸ hr'⟩

end run

end Rvntt.Muldiv
