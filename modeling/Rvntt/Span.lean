import Mathlib.Algebra.Order.BigOperators.Group.Finset
import Rvntt.CycleModel
import Rvntt.History
set_option autoImplicit false

/-!
The cycle model against the pipeline. Both predict a transfer from the tables
without the latest updates; they differ in how they count what is too late.
-/

namespace Rvntt.Predicted

open Core (ex exRedirect exDone)
open Ref (Record Walk Mirrors SameUpdate Pending)

/-! ### Dates -/

/-- Cycles the newest instruction of a history was held in ID. -/
def hold : List Done → Nat
  | d :: e :: _ => (loadUse e.insn d.insn).toNat+(occ e.insn-1)
  | _ => 0

/-- Cycles from the first instruction to the newest. -/
def clock : List Done → Int
  | d :: e :: h =>
    clock (e :: h)+occ d.insn+(loadUse e.insn d.insn).toNat+2*e.redirect.toNat
  | _ => 0

/-- The cycle in which the newest instruction would have finished, had it neither been
held nor taken longer than one cycle. -/
def date (h : List Done) : Int :=
  match h with
  | [] => 0
  | d :: _ => clock h-(occ d.insn-1)-hold h

theorem occ_pos (insn : Word) : 1 ≤ occ insn := by
  rw [occ]
  split
  · split <;> decide
  · exact Nat.le_refl 1

theorem date_cons (d e : Done) (h : List Done) :
    date (d :: e :: h) = date (e :: h)+1+hold (e :: h)+2*e.redirect.toNat := by
  have ho := occ_pos e.insn
  simp only [date,clock,hold]
  omega

/-- Dates between the newest instruction but `i` and the next one, leaving the
redirects out. -/
def age (h : List Done) (i : Nat) : Nat := ∑ m ∈ Finset.range (i+1), (1+hold (h.drop m))

theorem date_eq_sum (d : Done) {h : List Done} {i : Nat} (hi : i < h.length) :
    date (d :: h) = date (h.drop i)+
      ∑ m ∈ Finset.range (i+1), (1+hold (h.drop m)+2*(redirected h m).toNat : Nat) := by
  induction i with
  | zero =>
    cases h with
    | nil => cases hi
    | cons e h =>
      rw [date_cons,Finset.sum_range_one]
      simp only [List.drop_zero,redirected_zero]
      omega
  | succ i ih =>
    have h1 : i < h.length := by omega
    have hdrop : h.drop i = h[i] :: h[i+1] :: h.drop (i+2) := by
      rw [List.drop_eq_getElem_cons h1,List.drop_eq_getElem_cons hi]
    have hnext : h.drop (i+1) = h[i+1] :: h.drop (i+2) := List.drop_eq_getElem_cons hi
    have hr : redirected h (i+1) = h[i+1].redirect := by
      simp [redirected,List.getElem?_eq_getElem hi]
    rw [ih h1,hdrop,date_cons,Finset.sum_range_succ _ (i+1),← hnext,hr]
    push_cast
    omega

/-- What the core's lookup has seen, the model has too. -/
theorem four_le_of_seen (d : Done) {h : List Done} {i : Nat} (hi : i < h.length)
    (hs : unseen h ≤ i) : 4 ≤ date (d :: h)-date (h.drop i) := by
  have hsum : ∀ j, j ≤ i → i+1+2*(redirected h j).toNat ≤
      ∑ m ∈ Finset.range (i+1), (1+hold (h.drop m)+2*(redirected h m).toNat) := by
    intro j hj
    have hone : ∑ m ∈ Finset.range (i+1), (1 : Nat) = i+1 := by simp
    have htwo : 2*(redirected h j).toNat ≤
        ∑ m ∈ Finset.range (i+1), 2*(redirected h m).toNat :=
      Finset.single_le_sum (f := fun m => 2*(redirected h m).toNat) (fun _ _ => Nat.zero_le _)
        (Finset.mem_range.mpr (by omega))
    simp only [Finset.sum_add_distrib] at *
    omega
  rw [date_eq_sum d hi]
  have hle : 4 ≤ ∑ m ∈ Finset.range (i+1), (1+hold (h.drop m)+2*(redirected h m).toNat) := by
    rw [unseen] at hs
    split_ifs at hs with h1 h2
    · have := hsum 1 hs
      rw [h1] at this
      simp only [Bool.toNat_true] at this
      omega
    · have := hsum 2 hs
      rw [h2] at this
      simp only [Bool.toNat_true] at this
      omega
    · have := hsum 0 (Nat.zero_le i)
      omega
  omega

/-- Among the updates the lookup has not seen, dates count no redirect. -/
theorem age_of_unseen (d : Done) {h : List Done} {i : Nat} (hi : i < h.length)
    (hs : i < unseen h) (hr : redirected h 0 = false) :
    date (d :: h)-date (h.drop i) = age h i := by
  have hz : ∀ m, m ≤ i → redirected h m = false := by
    intro m hm
    rw [unseen] at hs
    split_ifs at hs with h1 h2
    · obtain rfl : m = 0 := by omega
      exact hr
    · rcases (by omega : m = 0 ∨ m = 1) with rfl | rfl
      · exact hr
      · simpa using h1
    · rcases (by omega : m = 0 ∨ m = 1 ∨ m = 2) with rfl | rfl | rfl
      · exact hr
      · simpa using h1
      · simpa using h2
  rw [date_eq_sum d hi,age,Finset.sum_congr rfl fun m hm => by
    rw [hz m (by rw [Finset.mem_range] at hm; omega)]]
  simp only [Bool.toNat_false,Nat.mul_zero,Nat.add_zero]
  omega

theorem date_mono {h : List Done} {i j : Nat} (hij : i ≤ j) (hj : j < h.length) :
    date (h.drop j) ≤ date (h.drop i) := by
  induction j, hij using Nat.le_induction with
  | base => exact Int.le_refl _
  | succ j hij ih =>
    refine Int.le_trans ?_ (ih (by omega))
    rw [List.drop_eq_getElem_cons (show j < h.length by omega),List.drop_eq_getElem_cons hj,
      date_cons]
    omega

theorem date_le_cons (d : Done) {h : List Done} (hh : h ≠ []) : date h ≤ date (d :: h) := by
  cases h with
  | nil => exact absurd rfl hh
  | cons e h => rw [date_cons]; omega

/-! ### The updates the model keeps back -/

def shown (d : Done) : Word := if d.upd.taken then d.upd.target else 0

def entryOf (h : List Done) : List Pending :=
  match h with
  | [] => []
  | d :: _ =>
    if d.upd.valid then [⟨date h,d.pc,d.insn,d.upd.taken,shown d⟩] else []

def pendingOf (h : List Done) : Nat → List Pending
  | 0 => []
  | m+1 => entryOf (h.drop m) ++ pendingOf h m

theorem pendingOf_cons (d : Done) (h : List Done) (m : Nat) :
    pendingOf (d :: h) (m+1) = pendingOf h m ++ entryOf (d :: h) := by
  induction m with
  | zero => exact List.append_nil _
  | succ m ih =>
    rw [pendingOf,ih,pendingOf,List.append_assoc]
    rfl

theorem Legit.drop {img : Rom.Image} {p : PowerUp} {h : List Done} (hl : Legit img p h) (m : Nat) :
    Legit img p (h.drop m) := by
  induction m generalizing h with
  | zero => exact hl
  | succ m ih =>
    cases hl with
    | nil => exact .nil
    | cons _ hl => exact ih hl

theorem Fits.sameUpdate {img : Rom.Image} {p : PowerUp} {h : List Done} {d : Done}
    (hf : Fits img p h d) (hv : d.upd.valid = true) :
    SameUpdate d.upd d.pc d.insn d.upd.taken (shown d) where
  valid := hv
  pc := hf.updPc
  kind := hf.kind hv
  taken := rfl
  target ht := by
    rw [shown,if_pos ht]
    exact ⟨rfl,(hf.target ht).2⟩

/-- What a drain of the newest `m` at `now` leaves: the newest `n`, all of them dated less
than four before. -/
structure Drained (p : PowerUp) (h : List Done) (now : Int) (m n : Nat)
    (r : Ref.BPred × List Pending) : Prop where
  le : n ≤ m
  mirrors : Mirrors r.1 (content p (h.drop n))
  pending : r.2 = pendingOf h n
  kept : ∀ i e, i < n → h[i]? = some e → e.upd.valid = true → now-date (h.drop i) < 4
  landed : ∀ i e, n ≤ i → i < m → h[i]? = some e → e.upd.valid = true →
    4 ≤ now-date (h.drop i)

theorem Drained.succ {p : PowerUp} {h : List Done} {now : Int} {m n : Nat}
    {r : Ref.BPred × List Pending} (hd : Drained p h now m n r)
    (hm : ∀ e, h[m]? = some e → e.upd.valid = true → 4 ≤ now-date (h.drop m)) :
    Drained p h now (m+1) n r where
  le := Nat.le_succ_of_le hd.le
  mirrors := hd.mirrors
  pending := hd.pending
  kept := hd.kept
  landed i e h1 h2 hi hv := by
    rcases (by omega : i < m ∨ i = m) with h' | rfl
    · exact hd.landed i e h1 h' hi hv
    · exact hm e hi hv

section drain

variable {img : Rom.Image} {p : PowerUp} {h : List Done} {m : Nat}

theorem Legit.fitsAt (hl : Legit img p h) (hm : m < h.length) :
    Fits img p (h.drop (m+1)) h[m] := by
  have h' := hl.drop m
  rw [List.drop_eq_getElem_cons hm] at h'
  cases h' with
  | cons hf _ => exact hf

theorem content_drop (p : PowerUp) (hm : m < h.length) :
    content p (h.drop m) = Bpred.update (content p (h.drop (m+1))) h[m].upd := by
  rw [List.drop_eq_getElem_cons hm]
  rfl

theorem entryOf_drop (hm : m < h.length) : entryOf (h.drop m) =
    if h[m].upd.valid then [⟨date (h.drop m),h[m].pc,h[m].insn,h[m].upd.taken,shown h[m]⟩]
    else [] := by
  rw [List.drop_eq_getElem_cons hm]
  rfl

theorem Drained.skip {now : Int} {n : Nat} {r : Ref.BPred × List Pending}
    (hd : Drained p h now m n r) (hm : m < h.length) (hv : h[m].upd.valid = false) :
    Drained p h now (m+1) n r := by
  refine hd.succ fun e he hv' => ?_
  rw [List.getElem?_eq_getElem hm] at he
  obtain rfl := Option.some.inj he
  rw [hv] at hv'
  cases hv'

theorem drained_stay {now : Int} {b : Ref.BPred} (hm : m < h.length)
    (hb : Mirrors b (content p (h.drop (m+1)))) (hstay : ¬now-date (h.drop m) ≥ 4) :
    Drained p h now (m+1) (m+1) (b,pendingOf h (m+1)) where
  le := Nat.le_refl _
  mirrors := hb
  pending := rfl
  kept i e hi _ _ := by
    have hmono := date_mono (show i ≤ m by omega) hm
    omega
  landed i e h1 h2 := by omega

theorem drainFrom_drained (hl : Legit img p h) (now : Int) {b : Ref.BPred}
    (hb : Mirrors b (content p (h.drop m))) : ∃ n, Drained p h now m n
      (Ref.DelayedBPred.drainFrom Ref.visibilityGap now b (pendingOf h m)) := by
  induction m generalizing b with
  | zero => exact ⟨0,Nat.le_refl 0,hb,rfl,fun i e h => by omega,fun i e _ h => by omega⟩
  | succ m ih =>
    rcases Nat.lt_or_ge m h.length with hm | hm
    · have he := entryOf_drop hm
      have hc := content_drop p hm
      cases hv : h[m].upd.valid with
      | false =>
        rw [hv,if_neg Bool.false_ne_true] at he
        rw [update_of_not_valid _ hv] at hc
        rw [pendingOf,he,List.nil_append]
        obtain ⟨n,hd⟩ := ih (hc ▸ hb)
        exact ⟨n,hd.skip hm hv⟩
      | true =>
        rw [hv,if_pos rfl] at he
        by_cases hland : now-date (h.drop m) ≥ Ref.visibilityGap
        · rw [pendingOf,he]
          simp only [List.cons_append,List.nil_append,Ref.DelayedBPred.drainFrom]
          rw [if_pos hland]
          obtain ⟨n,hd⟩ := ih (hc ▸ Ref.update_mirrors hb ((hl.fitsAt hm).sameUpdate hv))
          exact ⟨n,hd.succ fun _ _ _ => hland⟩
        · have hs := drained_stay hm hb hland
          rw [pendingOf,he] at hs ⊢
          simp only [List.cons_append,List.nil_append,Ref.DelayedBPred.drainFrom] at hs ⊢
          rw [if_neg hland]
          exact ⟨m+1,hs⟩
    · have hdrop : h.drop m = [] := List.drop_eq_nil_of_le hm
      have hc : content p (h.drop m) = content p (h.drop (m+1)) := by
        rw [hdrop,List.drop_eq_nil_of_le (show h.length ≤ m+1 by omega)]
      rw [pendingOf,hdrop,entryOf,List.nil_append]
      obtain ⟨n,hd⟩ := ih (hc ▸ hb)
      refine ⟨n,hd.succ fun e he => ?_⟩
      rw [List.getElem?_eq_none hm] at he
      cases he

end drain

/-! ### The condition -/

/-- A transfer on which both predict alike. -/
structure Foreseen (p : PowerUp) (h : List Done) (d : Done) : Prop where
  /-- A branch that is taken does not go where it would have gone anyway. -/
  leaves : (decode d.insn).branch = true → d.upd.taken = true → d.upd.target ≠ d.pc+4
  /-- Where the core looks up, what it has not seen but is at least four dates old makes
  no difference. -/
  early : redirected h 0 = false → ∀ i, i < unseen h → ∀ e, h[i]? = some e →
    e.upd.valid = true → 4 ≤ age h i → ¬Bpred.Disturbs (content p (h.drop (i+1))) e.upd d.pc

inductive AllForeseen (p : PowerUp) : List Done → Prop
  | nil : AllForeseen p []
  | cons {d : Done} {h : List Done} (hd : d.upd.valid = true → Foreseen p h d)
      (hh : AllForeseen p h) : AllForeseen p (d :: h)

instance (p : PowerUp) (h : List Done) (d : Done) : Decidable (Foreseen p h d) :=
  decidable_of_iff
    (((decode d.insn).branch = true → d.upd.taken = true → d.upd.target ≠ d.pc+4) ∧
    (redirected h 0 = false → ∀ i, i < unseen h → ∀ e ∈ h[i]?, e.upd.valid = true →
      4 ≤ age h i → ¬Bpred.Disturbs (content p (h.drop (i+1))) e.upd d.pc))
    ⟨fun ⟨h1,h2⟩ => ⟨h1,h2⟩,fun h => ⟨h.leaves,h.early⟩⟩

instance decidableAllForeseen (p : PowerUp) : (h : List Done) → Decidable (AllForeseen p h)
  | [] => .isTrue .nil
  | d :: h =>
    have := decidableAllForeseen p h
    decidable_of_iff ((d.upd.valid = true → Foreseen p h d) ∧ AllForeseen p h)
      ⟨fun ⟨h1,h2⟩ => .cons h1 h2,fun hc => by cases hc with | cons h1 h2 => exact ⟨h1,h2⟩⟩

theorem answer_reset (btb : BitVec 8 → Bpred.Entry 8) (ras : BitVec 3 → Word) (pc : Word) :
    Bpred.answer (Bpred.reset btb ras) pc = none := by
  rw [Bpred.answer_eq]
  rfl

theorem content_count (p : PowerUp) (h : List Done) : (content p h).rasCntQ.toNat ≤ 2^3 := by
  induction h with
  | nil => exact Nat.zero_le _
  | cons d h ih => exact (Bpred.stack_update ih d.upd).2

theorem answer_drop {p : PowerUp} {h : List Done} {pc : Word} {a b : Nat} (hab : a ≤ b)
    (hq : ∀ i e, a ≤ i → i < b → h[i]? = some e → e.upd.valid = true →
      ¬Bpred.Disturbs (content p (h.drop (i+1))) e.upd pc) :
    Bpred.answer (content p (h.drop a)) pc = Bpred.answer (content p (h.drop b)) pc := by
  induction b, hab using Nat.le_induction with
  | base => rfl
  | succ b hab ih =>
    rw [ih fun i e h1 h2 => hq i e h1 (by omega)]
    rcases Nat.lt_or_ge b h.length with hb | hb
    · have hdrop : h.drop b = h[b] :: h.drop (b+1) := List.drop_eq_getElem_cons hb
      rw [hdrop,content]
      cases hv : h[b].upd.valid with
      | false => rw [update_of_not_valid _ hv]
      | true =>
        exact (Bpred.answer_update_iff (content_count p _) _ _).mpr
          (hq b h[b] hab (Nat.lt_succ_self b) (List.getElem?_eq_getElem hb) hv)
    · rw [List.drop_eq_nil_of_le hb,List.drop_eq_nil_of_le (show h.length ≤ b+1 by omega)]

/-- What the model has let through by the date of a foreseen transfer answers as the
core's lookup did. -/
theorem Foreseen.answer_eq {p : PowerUp} {h : List Done} {d : Done} {m n : Nat}
    {r : Ref.BPred × List Pending} (hf : Foreseen p h d) (hr : redirected h 0 = false)
    (hd : Drained p h (date (d :: h)) m n r)
    (hl : ∀ i e, m ≤ i → h[i]? = some e → e.upd.valid = true →
      4 ≤ date (d :: h)-date (h.drop i)) :
    Bpred.answer (content p (h.drop n)) d.pc =
      Bpred.answer (content p (h.drop (unseen h))) d.pc := by
  have hlen : ∀ {i e}, h[i]? = some e → i < h.length := fun hi =>
    (List.getElem?_eq_some_iff.mp hi).1
  rcases Nat.le_total n (unseen h) with hn | hn
  · refine answer_drop hn fun i e h1 h2 hi hv => ?_
    refine hf.early hr i h2 e hi hv ?_
    have hage := age_of_unseen d (hlen hi) h2 hr
    have h4 : 4 ≤ date (d :: h)-date (h.drop i) := by
      rcases Nat.lt_or_ge i m with hm | hm
      · exact hd.landed i e h1 hm hi hv
      · exact hl i e hm hi hv
    omega
  · refine (answer_drop hn fun i e h1 h2 hi hv => ?_).symm
    have h3 := hd.kept i e h2 hi hv
    have h4 := four_le_of_seen d (hlen hi) h1
    omega

/-! ### The walk -/

def line (d : Done) : Record := ⟨d.pc,d.insn⟩

@[simp] theorem line_pc (d : Done) : (line d).pc = d.pc := rfl
@[simp] theorem line_insn (d : Done) : (line d).insn = d.insn := rfl

def reach (stallAt : List Word) : List Done → Record → Walk
  | [],_ => {}
  | e :: h,q => (reach stallAt h (line e)).visit stallAt (line e) (some q)

def lines (h : List Done) : List Record := (h.map line).reverse

theorem walkTo_lines (stallAt : List Word) (h : List Done) (q : Record) :
    Ref.walkTo stallAt {} (lines h) q = reach stallAt h q := by
  induction h generalizing q with
  | nil => rfl
  | cons e h ih =>
    rw [lines,List.map_cons,List.reverse_cons,Ref.walkTo_concat]
    exact congrArg (Walk.visit stallAt · (line e) (some q)) (ih (line e))

theorem muldivCycles_eq : ∀ op, Ref.muldivCycles op = (Muldiv.latency op+1 : Nat) := by decide

theorem extra_eq (d : Done) : Ref.extra (line d) = occ d.insn-1 := by
  simp only [Ref.extra,Ref.isMuldiv,Ref.decode_eq,line]
  cases hm : (decode d.insn).isMuldiv with
  | true => rw [if_pos rfl,muldivCycles_eq,occ_muldiv hm]
  | false => rw [if_neg (by simp),occ_single hm]; rfl

theorem stallsOn_eq (e d : Done) : Ref.stallsOn (line e) (line d) = loadUse e.insn d.insn := by
  simp only [Ref.stallsOn,Ref.decode_eq,line]
  rfl

theorem isTransfer_eq (d : Done) : Ref.isTransfer (line d) = (decode d.insn).transfer := by
  simp only [Ref.isTransfer,Ref.decode_eq,line]
  rfl

structure Dated (h : List Done) (w : Walk) : Prop where
  cyc : w.cyc = clock h
  prevPc : w.prevPc = h.head?.map Done.pc
  prevExtra : w.prevExtra = (h.head?.map fun e => (occ e.insn : Int)-1).getD 0
  prevHold : w.prevHold = hold h

theorem Dated.advance {stallAt : List Word} {h : List Done} {q : Done} {w : Walk}
    (hd : Dated h w) (hm : w.prevMispredicted = (h.head?.map Done.redirect).getD false)
    (hst : ∀ e, h.head? = some e →
      (e.pc ∈ stallAt ↔ Ref.stallsOn (line e) (line q) = true)) :
    Dated (q :: h) (w.advance stallAt (line q)) := by
  cases h with
  | nil =>
    have hp : w.prevPc = none := hd.prevPc
    refine ⟨?_,?_,?_,?_⟩
    all_goals simp only [Walk.advance,hp]
    · exact hd.cyc
    · rfl
    · exact extra_eq q
    · exact hd.prevHold
  | cons e h =>
    have hp : w.prevPc = some e.pc := hd.prevPc
    have hs : (if e.pc ∈ stallAt then (1 : Int) else 0) = (loadUse e.insn q.insn).toNat := by
      rw [← stallsOn_eq e q]
      cases hb : Ref.stallsOn (line e) (line q) with
      | true => rw [if_pos ((hst e rfl).mpr hb)]; rfl
      | false => rw [if_neg fun hi => by simp [(hst e rfl).mp hi] at hb]; rfl
    have hmis : (if w.prevMispredicted = true then (2 : Int) else 0) = 2*e.redirect.toNat := by
      rw [show w.prevMispredicted = e.redirect from hm]
      cases e.redirect <;> rfl
    have hext : w.prevExtra = (occ e.insn : Int)-1 := hd.prevExtra
    have ho := occ_pos e.insn
    refine ⟨?_,?_,?_,?_⟩
    all_goals simp only [Walk.advance,hp,hs,hmis]
    · rw [hd.cyc,extra_eq,clock]
      omega
    · rfl
    · exact extra_eq q
    · rw [hext,hold]
      omega

structure Tracks (p : PowerUp) (h : List Done) (q : Done) (w : Walk) : Prop where
  dated : Dated h w
  mispredicted : w.prevMispredicted = (h.head?.map Done.redirect).getD false
  target : w.pendingTarget = if w.prevMispredicted then some q.pc else none
  mispredicts : w.mispredicts = ((h.filter Done.redirect).map Done.pc).reverse
  gap : w.bp.gap = Ref.visibilityGap
  lag : ∃ m, Mirrors w.bp.bp (content p (h.drop m)) ∧ w.bp.pending = pendingOf h m ∧
    ∀ i e, m ≤ i → h[i]? = some e → e.upd.valid = true → 4 ≤ date h-date (h.drop i)

theorem tracks_nil (p : PowerUp) (stallAt : List Word) (q : Done) :
    Tracks p [] q (reach stallAt [] (line q)) where
  dated := ⟨rfl,rfl,rfl,rfl⟩
  mispredicted := rfl
  target := rfl
  mispredicts := rfl
  gap := rfl
  lag := ⟨0,Ref.mirrors_reset _ _,rfl,fun i e _ h => by cases h⟩

@[simp] theorem advance_bp (stallAt : List Word) (w : Walk) (r : Record) :
    (w.advance stallAt r).bp = w.bp := by
  rw [Walk.advance]
  cases w.prevPc <;> rfl

@[simp] theorem advance_mispredicts (stallAt : List Word) (w : Walk) (r : Record) :
    (w.advance stallAt r).mispredicts = w.mispredicts := by
  rw [Walk.advance]
  cases w.prevPc <;> rfl

@[simp] theorem advance_pendingTarget (stallAt : List Word) (w : Walk) (r : Record) :
    (w.advance stallAt r).pendingTarget = w.pendingTarget := by
  rw [Walk.advance]
  cases w.prevPc <;> rfl

theorem pass_eq {w : Walk} {r : Record}
    (h : w.pendingTarget = none ∨ w.pendingTarget = some r.pc) :
    w.pass r = {w with pendingTarget := none} := by
  rw [Walk.pass]
  rcases h with h | h
  · rw [if_neg (by simp [h]),← h]
  · rw [if_pos h.symm]

theorem landed_cons {h : List Done} {m : Nat} (q : Done)
    (hl : ∀ i e, m ≤ i → h[i]? = some e → e.upd.valid = true → 4 ≤ date h-date (h.drop i))
    {i : Nat} {e : Done} (hi : m ≤ i) (he : h[i]? = some e) (hv : e.upd.valid = true) :
    4 ≤ date (q :: h)-date (h.drop i) := by
  have hlt := (List.getElem?_eq_some_iff.mp he).1
  have hle := date_le_cons q (List.ne_nil_of_length_pos (l := h) (by omega))
  have := hl i e hi he hv
  omega

theorem tracks_pass {img : Rom.Image} {p : PowerUp} {stallAt : List Word} {h : List Done}
    {q n : Done} {w : Walk} (ht : Tracks p h q w) (hf : Fits img p h q)
    (hv : q.upd.valid = false)
    (hst : ∀ e, h.head? = some e →
      (e.pc ∈ stallAt ↔ Ref.stallsOn (line e) (line q) = true)) :
    Tracks p (q :: h) n ((w.advance stallAt (line q)).pass (line q)) := by
  have hr : q.redirect = false := by
    by_contra hr
    rw [hf.transfer (by simpa using hr)] at hv
    cases hv
  have hp : (w.advance stallAt (line q)).pendingTarget = none ∨
      (w.advance stallAt (line q)).pendingTarget = some (line q).pc := by
    rw [advance_pendingTarget,ht.target]
    split
    · exact .inr rfl
    · exact .inl rfl
  have hm : (w.advance stallAt (line q)).prevMispredicted = false := by rw [Walk.advance]
  have hd := ht.dated.advance ht.mispredicted hst
  obtain ⟨m,hmir,hpend,hlag⟩ := ht.lag
  rw [pass_eq hp]
  refine ⟨⟨hd.cyc,hd.prevPc,hd.prevExtra,hd.prevHold⟩,?_,?_,?_,?_,m+1,?_,?_,?_⟩
  · rw [hm]
    exact hr.symm
  · rw [hm]
    rfl
  · rw [List.filter_cons_of_neg (by simp [hr])]
    simpa using ht.mispredicts
  · simpa using ht.gap
  · simpa using hmir
  · rw [pendingOf_cons,entryOf,hv,if_neg (by simp),List.append_nil]
    simpa using hpend
  · intro i e hi he hve
    cases i with
    | zero => omega
    | succ i =>
      exact landed_cons q hlag (Nat.le_of_succ_le_succ hi) he hve

/-! A transfer, as the walk computes its outcome from the two records. -/

theorem transfer_valid {img : Rom.Image} {p : PowerUp} {h : List Done} {q : Done}
    (hf : Fits img p h q) (hv : q.upd.valid = true) : (decode q.insn).transfer = true :=
  hf.valid ▸ hv

theorem occ_transfer {insn : Word} (h : (decode insn).transfer = true) : occ insn = 1 := by
  refine occ_single ?_
  rcases (decode_shape insn).transfer_eq h with h | h | h <;> rw [h] <;> rfl

theorem Foreseen.taken_eq {img : Rom.Image} {p : PowerUp} {h : List Done} {q n : Done}
    (hfo : Foreseen p h q) (hf : Fits img p h q) (hv : q.upd.valid = true) (hn : Follows q n) :
    ((Ref.decode q.insn).1.jump || n.pc != q.pc+4) = q.upd.taken := by
  rw [Ref.decode_eq,hn.pc,successor]
  cases hj : (decode q.insn).jump with
  | true => rw [hf.jump hj]; rfl
  | false =>
    have hb : (decode q.insn).branch = true := by
      have htr := transfer_valid hf hv
      rw [Ctrl.transfer,hj,Bool.or_false] at htr
      exact htr
    cases ht : q.upd.taken with
    | false => simp
    | true => simpa [hj] using hfo.leaves hb ht

theorem shown_eq {q n : Done} (hn : Follows q n) :
    (if q.upd.taken = true then n.pc else 0) = shown q := by
  rw [shown,hn.pc,successor]
  split <;> rfl

theorem Fits.redirect_eq {img : Rom.Image} {p : PowerUp} {h : List Done} {q : Done}
    (hf : Fits img p h q) : (if q.upd.taken = true then
      !((Ref.asPair (predicted p h q.pc)).1 && (Ref.asPair (predicted p h q.pc)).2 == shown q)
      else (Ref.asPair (predicted p h q.pc)).1) = q.redirect := by
  rw [Bool.eq_iff_iff,hf.redirect,shown]
  cases predicted p h q.pc <;> cases q.upd.taken <;> simp [Ref.asPair,carried]

theorem Foreseen.predicted_eq {p : PowerUp} {h : List Done} {q : Done} {m k : Nat} {w : Walk}
    (hfo : Foreseen p h q) (ht : Tracks p h q w)
    (hdr : Drained p h (date (q :: h)) m k
      (Ref.DelayedBPred.drainFrom w.bp.gap (date (q :: h)) w.bp.bp w.bp.pending))
    (hlag : ∀ i e, m ≤ i → h[i]? = some e → e.upd.valid = true →
      4 ≤ date (q :: h)-date (h.drop i)) :
    (if (Ref.suppressAfterRedirect && decide (some q.pc = w.pendingTarget)) = true
      then (false,0) else (w.bp.predict q.pc (date (q :: h))).1) =
      Ref.asPair (predicted p h q.pc) := by
  have hask : (w.bp.predict q.pc (date (q :: h))).1 =
      Ref.asPair (Bpred.answer (content p (h.drop k)) q.pc) := Ref.predict_eq hdr.mirrors q.pc
  rw [hask,ht.target,ht.mispredicted]
  cases h with
  | nil =>
    rw [List.drop_nil,show content p [] = Bpred.reset p.btb p.ras from rfl,answer_reset]
    simp [predicted]
  | cons e h =>
    rw [predicted,redirected_zero]
    cases hr : e.redirect with
    | true => simp [hr,Ref.suppressAfterRedirect,Ref.asPair]
    | false =>
      rw [← hfo.answer_eq hr hdr hlag]
      simp [hr]

theorem tracks_transfer {img : Rom.Image} {p : PowerUp} {stallAt : List Word} {h : List Done}
    {q n : Done} {w : Walk} (ht : Tracks p h q w) (hf : Fits img p h q) (hl : Legit img p h)
    (hv : q.upd.valid = true) (hfo : Foreseen p h q) (hn : Follows q n)
    (hst : ∀ e, h.head? = some e →
      (e.pc ∈ stallAt ↔ Ref.stallsOn (line e) (line q) = true)) :
    Tracks p (q :: h) n ((w.advance stallAt (line q)).transfer (line q) (line n)) := by
  have hd := ht.dated.advance ht.mispredicted hst
  have hnow : (w.advance stallAt (line q)).cyc-(w.advance stallAt (line q)).prevHold =
      date (q :: h) := by
    rw [hd.cyc,hd.prevHold,date,occ_transfer (transfer_valid hf hv)]
    omega
  obtain ⟨m,hmir,hpend,hlag⟩ := ht.lag
  have hlag' := fun i e hi => @landed_cons h m q hlag i e hi
  obtain ⟨k,hdr⟩ := drainFrom_drained hl (date (q :: h)) hmir
  rw [← hpend,← ht.gap] at hdr
  have hgoes : (if q.upd.taken = true then shown q else q.pc+4) = successor q := by
    rw [shown,successor]
    split <;> rfl
  have heq : (w.advance stallAt (line q)).transfer (line q) (line n) =
      {w.advance stallAt (line q) with
        bp := (w.bp.predict q.pc (date (q :: h))).2.update (date (q :: h)) q.pc q.insn
          q.upd.taken (shown q)
        mispredicts := if q.redirect then w.mispredicts ++ [q.pc] else w.mispredicts
        prevMispredicted := q.redirect
        pendingTarget := if q.redirect then some (successor q) else none} := by
    rw [Walk.transfer]
    simp only [hnow,line_pc,line_insn,advance_bp,advance_mispredicts,advance_pendingTarget,
      hfo.taken_eq hf hv hn,shown_eq hn,hfo.predicted_eq ht hdr hlag',hf.redirect_eq,hgoes]
  rw [heq]
  refine ⟨⟨hd.cyc,hd.prevPc,hd.prevExtra,hd.prevHold⟩,rfl,?_,?_,ht.gap,k+1,?_,?_,?_⟩
  · change (if q.redirect then some (successor q) else none) = _
    rw [← hn.pc]
  · change (if q.redirect then w.mispredicts ++ [q.pc] else w.mispredicts) = _
    rw [ht.mispredicts,List.filter_cons]
    cases q.redirect <;> simp
  · exact hdr.mirrors
  · rw [pendingOf_cons,entryOf,hv,if_pos rfl]
    exact congrArg (· ++ _) hdr.pending
  · intro i e hi he hve
    cases i with
    | zero => omega
    | succ i =>
      change 4 ≤ date (q :: h)-date (h.drop i)
      rcases Nat.lt_or_ge i m with him | him
      · exact hdr.landed i e (by omega) him he hve
      · exact hlag' i e him he hve

def adjacent (h : List Done) : List (Done × Done) := h.tail.zip h

theorem adjacent_cons (q e : Done) (h : List Done) :
    adjacent (q :: e :: h) = (e,q) :: adjacent (e :: h) := rfl

def StallsAt (stallAt : List Word) (h : List Done) : Prop :=
  ∀ e q, (e,q) ∈ adjacent h → (e.pc ∈ stallAt ↔ Ref.stallsOn (line e) (line q) = true)

theorem tracks {img : Rom.Image} {p : PowerUp} {stallAt : List Word} {h : List Done} {q : Done}
    (hl : Legit img p (q :: h)) (hst : StallsAt stallAt (q :: h)) (hfo : AllForeseen p h) :
    Tracks p h q (reach stallAt h (line q)) := by
  induction h generalizing q with
  | nil => exact tracks_nil p stallAt q
  | cons e h ih =>
    cases hl with
    | cons hq hl =>
      cases hfo with
      | cons hfe hfh =>
        have hst' : StallsAt stallAt (e :: h) := fun a b hab =>
          hst a b (List.mem_cons_of_mem _ hab)
        have hste : ∀ a, h.head? = some a →
            (a.pc ∈ stallAt ↔ Ref.stallsOn (line a) (line e) = true) := fun a ha => by
          cases h with
          | nil => cases ha
          | cons a' h =>
            obtain rfl := Option.some.inj ha
            exact hst' _ _ (List.mem_cons_self ..)
        have ht := ih hl hst' hfh
        rw [reach]
        cases hl with
        | cons he hl =>
          cases hv : e.upd.valid with
          | false =>
            rw [Walk.visit,isTransfer_eq,← he.valid,hv,if_neg (by simp)]
            exact tracks_pass ht he hv hste
          | true =>
            rw [Walk.visit,isTransfer_eq,← he.valid,hv,if_pos rfl]
            exact tracks_transfer ht he hl hv (hfe hv) (hq.follows e rfl) hste

/-! ### The stalls -/

structure InRow (img : Rom.Image) (e q : Done) : Prop where
  follows : Follows e q
  word : e.insn = img.word e.pc
  word' : q.insn = img.word q.pc
  plain : (decode e.insn).transfer = false → e.upd.taken = false

theorem Legit.inRow {img : Rom.Image} {p : PowerUp} {h : List Done} (hl : Legit img p h)
    {e q : Done} (hm : (e,q) ∈ adjacent h) : InRow img e q := by
  induction hl with
  | nil => cases hm
  | @cons d h hf hl ih =>
    cases hl with
    | nil => cases hm
    | cons he hl =>
      rcases List.mem_cons.mp hm with hm | hm
      · obtain ⟨rfl,rfl⟩ := Prod.mk.inj hm
        refine ⟨hf.follows _ rfl,he.word,hf.word,fun h => ?_⟩
        by_contra ht
        rw [← he.valid,(he.target (by simpa using ht)).1] at h
        cases h
      · exact ih hm

theorem InRow.stalls_congr {img : Rom.Image} {e q e' q' : Done} (h : InRow img e q)
    (h' : InRow img e' q') (hpc : e.pc = e'.pc)
    (hs : Ref.stallsOn (line e) (line q) = true) : Ref.stallsOn (line e') (line q') = true := by
  have hload : isLoad e.insn = true := by
    rw [stallsOn_eq,loadUse,Bool.and_eq_true,Bool.and_eq_true] at hs
    exact hs.1.1
  have hi : e'.insn = e.insn := by rw [h.word,h'.word,hpc]
  have htr : (decode e.insn).transfer = false := by
    rw [(decode_shape e.insn).memRead_eq hload]
    rfl
  have hq : q'.pc = q.pc := by
    rw [h.follows.pc,h'.follows.pc,successor,successor,h.plain htr,h'.plain (hi ▸ htr),hpc]
    rfl
  have hqi : q'.insn = q.insn := by rw [h.word',h'.word',hq]
  rwa [stallsOn_eq,hi,hqi,← stallsOn_eq]

theorem pairs_lines (h : List Done) :
    Ref.pairs (lines h) = ((adjacent h).map fun p => (line p.1,line p.2)).reverse := by
  induction h with
  | nil => rfl
  | cons q h ih =>
    cases h with
    | nil => rfl
    | cons e h =>
      rw [adjacent_cons,List.map_cons,List.reverse_cons,← ih]
      simp only [lines,List.map_cons,List.reverse_cons]
      exact Ref.pairs_concat _ _ _

theorem stallsAt_stallPcs {img : Rom.Image} {p : PowerUp} {h : List Done} (hl : Legit img p h) :
    StallsAt (Ref.stallPcs (lines h)) h := by
  intro e q hm
  rw [Ref.stallPcs,pairs_lines]
  simp only [List.mem_map,List.mem_filter,List.mem_reverse,Prod.exists]
  constructor
  · rintro ⟨_,_,⟨⟨e',q',hm',heq⟩,hs⟩,hpc⟩
    obtain ⟨rfl,rfl⟩ := Prod.mk.inj heq
    exact (hl.inRow hm').stalls_congr (hl.inRow hm) hpc hs
  · intro hs
    exact ⟨_,_,⟨⟨e,q,hm,rfl⟩,hs⟩,rfl⟩

/-! ### The totals -/

theorem lines_cons (q : Done) (h : List Done) : lines (q :: h) = lines h ++ [line q] := by
  simp [lines]

theorem visit_last_mispredicts (stallAt : List Word) (w : Walk) (r : Record) :
    (w.visit stallAt r none).mispredicts = w.mispredicts := by
  rw [Walk.visit]
  simp only [Walk.pass]
  split
  · exact advance_mispredicts stallAt w r
  · exact advance_mispredicts stallAt w r

theorem analyse_mispredictPcs {img : Rom.Image} {p : PowerUp} {h : List Done}
    (hl : Legit img p h) (hfo : AllForeseen p h.tail) :
    (Ref.analyse (lines h) true).mispredictPcs =
      ((h.tail.filter Done.redirect).map Done.pc).reverse := by
  cases h with
  | nil => rfl
  | cons q h =>
    change (Ref.walk (Ref.stallPcs (lines (q :: h))) {} (lines (q :: h))).mispredicts = _
    rw [lines_cons,Ref.walk_concat,visit_last_mispredicts,walkTo_lines,← lines_cons]
    exact (tracks hl (stallsAt_stallPcs hl) hfo).mispredicts

theorem length_stallPcs (q e : Done) (h : List Done) :
    (Ref.stallPcs (lines (q :: e :: h))).length =
      (Ref.stallPcs (lines (e :: h))).length+(loadUse e.insn q.insn).toNat := by
  simp only [Ref.stallPcs,pairs_lines,adjacent_cons,List.map_cons,List.reverse_cons,
    List.filter_append,List.map_append,List.length_append,List.filter_singleton,stallsOn_eq]
  cases loadUse e.insn q.insn <;> rfl

def muldivSum (h : List Done) : Int := (((lines h).tail.filter Ref.isMuldiv).map Ref.extra).sum

theorem muldivSum_cons (q e : Done) (h : List Done) :
    muldivSum (q :: e :: h) = muldivSum (e :: h)+(occ q.insn-1) := by
  have hne : lines (e :: h) ≠ [] := by simp [lines]
  rw [muldivSum,lines_cons,List.tail_append_of_ne_nil hne,List.filter_append,List.map_append,
    List.sum_append,← muldivSum,← extra_eq,List.filter_singleton]
  cases hm : Ref.isMuldiv (line q) with
  | true => simp
  | false => simp [Ref.extra,hm]

theorem clock_eq_sum (q : Done) (h : List Done) : clock (q :: h) =
    h.length+(Ref.stallPcs (lines (q :: h))).length+2*(h.filter Done.redirect).length+
      muldivSum (q :: h) := by
  induction h generalizing q with
  | nil => rfl
  | cons e h ih =>
    have hr : ((e :: h).filter Done.redirect).length =
        (h.filter Done.redirect).length+e.redirect.toNat := by
      rw [List.filter_cons]
      cases e.redirect <;> rfl
    rw [clock,ih,length_stallPcs,muldivSum_cons,hr,List.length_cons]
    push_cast
    omega

theorem analyse_span {img : Rom.Image} {p : PowerUp} {q : Done} {h : List Done}
    (hl : Legit img p (q :: h)) (hfo : AllForeseen p h) :
    (Ref.analyse (lines (q :: h)) true).span = clock (q :: h) := by
  have hm : (Ref.walk (Ref.stallPcs (lines (q :: h))) {} (lines (q :: h))).mispredicts = _ :=
    analyse_mispredictPcs hl hfo
  rw [clock_eq_sum]
  simp only [Ref.analyse,hm,if_true,List.length_reverse,List.length_map,List.tail_cons]
  rw [← muldivSum]
  simp only [lines,List.length_reverse,List.length_map,List.length_cons]
  push_cast
  omega

/-- On a run the dates are cycles. -/
theorem clock_eq_time {img : Rom.Image} {p : PowerUp} {q f : Done} {h : List Done}
    (hl : Legit img p (q :: h)) (hf : (q :: h).getLast? = some f) :
    clock (q :: h) = q.time-f.time := by
  induction h generalizing q with
  | nil =>
    obtain rfl := Option.some.inj hf
    exact (Int.sub_self _).symm
  | cons e h ih =>
    cases hl with
    | cons hq hl =>
      have htime := (hq.follows e rfl).time
      rw [List.getLast?_cons_cons] at hf
      rw [clock,ih hl hf]
      omega

/-! ### The commit port -/

section run

variable (img : Rom.Image) (resetPc : Word) (p : PowerUp) (x : Nat → Rom.In)

def records (t : Nat) : List Record :=
  Clocked.events (fun u => (Core.commit (coreAt img resetPc p x u)).map
    fun c => ⟨c.pc,c.insn⟩) t

def retirements (t : Nat) : List Nat :=
  Clocked.events (fun u => (Core.commit (coreAt img resetPc p x u)).map fun _ => u) t

/-- The retired transfers but the last on which the core raised `ex_redirect`, two cycles
before they retired. -/
def redirectPcs (t : Nat) : List Word :=
  ((retirements img resetPc p x t).dropLast.filter fun u =>
    (decode (coreAt img resetPc p x u).memWbQ.insn).transfer &&
      exRedirect (coreAt img resetPc p x (u-2))).map
    fun u => (coreAt img resetPc p x u).memWbQ.pc

structure Exact (t : Nat) : Prop where
  mispredicts : (Ref.analyse (records img resetPc p x t) true).mispredictPcs =
    redirectPcs img resetPc p x t
  span : ∀ a b, (retirements img resetPc p x t).head? = some a →
    (retirements img resetPc p x t).getLast? = some b →
    (Ref.analyse (records img resetPc p x t) true).span = (b : Int)-a

variable {img resetPc p x}

theorem commit_doneAt {t : Nat} (hu : Untrapped (coreAt img resetPc p x t)) :
    (Core.commit (coreAt img resetPc p x (t+2))).map (fun c => (⟨c.pc,c.insn⟩ : Record)) =
      if exDone (coreAt img resetPc p x t) then
        some (line (doneAt (coreAt img resetPc p x t) t)) else none := by
  simp only [coreAt_run] at hu ⊢
  obtain ⟨hv,hpc⟩ := Core.memWbQ_two resetPc (ports resetPc p (Rom.feed img resetPc p x)) t
  rw [Core.retires,hu.1,Bool.not_false,Bool.and_true] at hv
  rw [Core.commit]
  cases hd : exDone (Core.run resetPc (ports resetPc p (Rom.feed img resetPc p x)) t) with
  | false =>
    rw [hd] at hv
    rw [if_neg (by simp [hv]),if_neg (by simp)]
    rfl
  | true =>
    rw [hd] at hv
    obtain ⟨h1,h2⟩ := hpc hv
    rw [if_pos hv,if_pos rfl,Option.map_some,h1,h2]
    rfl

theorem history_succ (t : Nat) : history img resetPc p x (t+1) =
    extend (coreAt img resetPc p x t) t (history img resetPc p x t) := rfl

theorem records_eq {t : Nat} (hu : ∀ u, u < t → Untrapped (coreAt img resetPc p x u)) :
    records img resetPc p x (t+2) = lines (history img resetPc p x t) := by
  induction t with
  | zero => rfl
  | succ t ih =>
    rw [records,Clocked.events_succ,← records,ih fun u h => hu u (by omega),
      commit_doneAt (hu t (by omega)),history_succ,extend]
    split
    · rw [lines_cons]
      rfl
    · exact List.append_nil _

theorem retirements_eq {t : Nat} (hu : ∀ u, u < t → Untrapped (coreAt img resetPc p x u)) :
    retirements img resetPc p x (t+2) =
      ((history img resetPc p x t).map fun d => d.time+2).reverse := by
  induction t with
  | zero => rfl
  | succ t ih =>
    have hc := congrArg (Option.map fun _ => t+2) (commit_doneAt (hu t (by omega)))
    rw [Option.map_map] at hc
    rw [retirements,Clocked.events_succ,← retirements,ih fun u h => hu u (by omega),history_succ,
      extend]
    change _ ++ (Option.map (fun _ => t+2) _).toList = _
    split
    · rename_i hd
      rw [if_pos hd] at hc
      rw [show (fun _ => t+2) = (fun _ : Record => t+2) ∘ fun c : Core.Commit => ⟨c.pc,c.insn⟩
        from rfl,hc,List.map_cons,List.reverse_cons]
      rfl
    · rename_i hd
      rw [if_neg hd] at hc
      rw [show (fun _ => t+2) = (fun _ : Record => t+2) ∘ fun c : Core.Commit => ⟨c.pc,c.insn⟩
        from rfl,hc]
      exact List.append_nil _

theorem mem_history {t : Nat} {d : Done} (hd : d ∈ history img resetPc p x t) :
    d = doneAt (coreAt img resetPc p x d.time) d.time ∧
      exDone (coreAt img resetPc p x d.time) = true ∧ d.time < t := by
  induction t with
  | zero => cases hd
  | succ t ih =>
    rw [history_succ,extend] at hd
    split at hd
    · rcases List.mem_cons.mp hd with rfl | hd
      · exact ⟨rfl,‹_›,Nat.lt_succ_self t⟩
      · exact ⟨(ih hd).1,(ih hd).2.1,by have := (ih hd).2.2; omega⟩
    · exact ⟨(ih hd).1,(ih hd).2.1,by have := (ih hd).2.2; omega⟩

theorem Legit.fits {p : PowerUp} {h : List Done} (hl : Legit img p h) {d : Done} (hd : d ∈ h) :
    d.redirect = true → (decode d.insn).transfer = true := by
  induction hl with
  | nil => cases hd
  | cons hf _ ih =>
    rcases List.mem_cons.mp hd with rfl | hd
    · exact fun hr => hf.valid ▸ hf.transfer hr
    · exact ih hd

theorem retired_doneAt {t : Nat} {d : Done} (hu : ∀ u, u < t → Untrapped (coreAt img resetPc p x u))
    (hd : d ∈ history img resetPc p x t) :
    (coreAt img resetPc p x (d.time+2)).memWbQ.pc = d.pc ∧
      (coreAt img resetPc p x (d.time+2)).memWbQ.insn = d.insn ∧
      exRedirect (coreAt img resetPc p x d.time) = d.redirect := by
  obtain ⟨hde,hdd,hlt⟩ := mem_history hd
  have ht := (hu d.time hlt).1
  simp only [coreAt_run] at hde hdd ht ⊢
  obtain ⟨hv,hpc⟩ := Core.memWbQ_two resetPc (ports resetPc p (Rom.feed img resetPc p x)) d.time
  rw [Core.retires,hdd,ht] at hv
  obtain ⟨h1,h2⟩ := hpc hv
  refine ⟨h1.trans ?_,h2.trans ?_,?_⟩
  · rw [hde]; rfl
  · rw [hde]; rfl
  · rw [hde]; rfl

theorem redirectPcs_eq (hr : Aligned resetPc) {t : Nat}
    (hu : ∀ u, u < t → Untrapped (coreAt img resetPc p x u)) :
    redirectPcs img resetPc p x (t+2) =
      (((history img resetPc p x t).tail.filter Done.redirect).map Done.pc).reverse := by
  have hl := history_legit hr hu
  have hmem : ∀ d ∈ (history img resetPc p x t).tail, d ∈ history img resetPc p x t :=
    fun d hd => List.mem_of_mem_tail hd
  rw [redirectPcs,retirements_eq hu,List.dropLast_reverse,← List.map_tail,List.filter_reverse,
    List.filter_map,List.map_reverse,List.map_map]
  congr 1
  have hf : (history img resetPc p x t).tail.filter ((fun u =>
      (decode (coreAt img resetPc p x u).memWbQ.insn).transfer &&
        exRedirect (coreAt img resetPc p x (u-2))) ∘ fun d => d.time+2) =
      (history img resetPc p x t).tail.filter Done.redirect := by
    refine List.filter_congr fun d hd => ?_
    obtain ⟨_,hi,hx⟩ := retired_doneAt hu (hmem d hd)
    simp only [Function.comp,Nat.add_sub_cancel,hi,hx]
    cases hb : d.redirect with
    | true => rw [hl.fits (hmem d hd) hb]; rfl
    | false => exact Bool.and_false _
  rw [hf]
  refine List.map_congr_left fun d hd => ?_
  exact (retired_doneAt hu (hmem d (List.mem_of_mem_filter hd))).1

/-- The cycle model is exact about every run all of whose transfers it foresees. -/
theorem analyse_exact (hr : Aligned resetPc) (t : Nat)
    (hu : ∀ u, u < t → Untrapped (coreAt img resetPc p x u))
    (hfo : AllForeseen p (history img resetPc p x (t-2)).tail) : Exact img resetPc p x t := by
  rcases (by omega : t = 0 ∨ t = 1 ∨ 2 ≤ t) with rfl | rfl | ht
  · exact ⟨rfl,fun a b h => by cases h⟩
  · exact ⟨rfl,fun a b h => by cases h⟩
  obtain ⟨t,rfl⟩ := Nat.exists_eq_add_of_le' ht
  rw [Nat.add_sub_cancel] at hfo
  have hu' : ∀ u, u < t → Untrapped (coreAt img resetPc p x u) := fun u h => hu u (by omega)
  have hl := history_legit hr hu'
  refine ⟨?_,fun a b ha hb => ?_⟩
  · rw [records_eq hu',redirectPcs_eq hr hu']
    exact analyse_mispredictPcs hl hfo
  · rw [retirements_eq hu',List.head?_reverse,List.getLast?_map] at ha
    rw [retirements_eq hu',List.getLast?_reverse,List.head?_map] at hb
    rw [records_eq hu']
    cases hh : history img resetPc p x t with
    | nil => rw [hh] at hb; cases hb
    | cons q h =>
      rw [hh] at ha hb hl hfo
      obtain ⟨f,hf,rfl⟩ := Option.map_eq_some_iff.mp ha
      obtain rfl := Option.some.inj hb
      rw [analyse_span hl hfo,clock_eq_time hl hf]
      push_cast
      omega

end run

/-- `lw x5,0(x0)`, `add x6,x5,x5` and a jump back, from `0x80000000`. -/
def loadLoop : Rom.Image where
  word pc :=
    if pc = 0x80000000 then 0x00002283
    else if pc = 0x80000004 then 0x00528333
    else 0xFF9FF06F

/-- In the third round the jump is predicted from tables that lack what it did in the
second. -/
theorem analyse_exact_loadLoop : Exact loadLoop 0x80000000 {} (fun _ => {}) 24 :=
  analyse_exact (by decide) 24 (by decide +kernel) (by decide +kernel)

/-- `beq x0,x0,4` at `0x80000000` and `addi x0,x0,0` behind it. -/
def branchToNext : Rom.Image where
  word pc := if pc = 0x80000000 then 0x00000263 else 0x00000013

/-- The branch flushes the next instruction, which the model takes for one that was not
taken; and a return behind a load-use stall is looked up before the call is seen. -/
theorem analyse_not_exact :
    ((∀ u, u < 12 → Untrapped (coreAt branchToNext 0x80000000 {} (fun _ => {}) u)) ∧
      ¬Exact branchToNext 0x80000000 {} (fun _ => {}) 12) ∧
    (∀ u, u < 33 → Untrapped (coreAt callLoad 0x80000000 {} (fun _ => {}) u)) ∧
      ¬Exact callLoad 0x80000000 {} (fun _ => {}) 33 := by
  refine ⟨⟨by decide +kernel,fun h => ?_⟩,by decide +kernel,fun h => ?_⟩
  · exact absurd h.mispredicts (by decide +kernel)
  · exact absurd h.mispredicts (by decide +kernel)

end Rvntt.Predicted
