import Mathlib.Data.List.Forall2
import Rvntt.Entropy
import Rvntt.Lib.Bits
set_option autoImplicit false

/-!
The health tests on their own, and what the reads of `seed` hand out over a run.
-/

namespace Rvntt

namespace Health

structure In where
  sample : Bool
  sampleValid : Bool

variable (p : Params) (x : Nat → In)

def machine : Clocked.Machine (State p) In := ⟨{},fun s i => next s i.sample i.sampleValid⟩

def sampleAt (t : Nat) : Option Bool := if (x t).sampleValid then some (x t).sample else none

def samples (t : Nat) : List Bool := Clocked.events (sampleAt x) t

variable {p}

theorem run_tracks (hp : p.Valid) (t : Nat) : Tracks ((machine p).run x t) (samples x t) := by
  induction t with
  | zero => exact tracks_init hp
  | succ t ih =>
    have hn : (machine p).run x (t+1) =
        next ((machine p).run x t) (x t).sample (x t).sampleValid := rfl
    rw [hn,next]
    cases hv : (x t).sampleValid with
    | false =>
      have hs : sampleAt x t = none := by simp [sampleAt,hv]
      rw [samples,Clocked.events_succ_none hs,if_neg Bool.false_ne_true]
      exact ih
    | true =>
      have hs : sampleAt x t = some (x t).sample := by simp [sampleAt,hv]
      rw [samples,Clocked.events_succ_some hs,if_pos rfl]
      exact tracks_accept hp ih _

/-- `fail` says exactly whether one of the two tests fails on the samples so far. -/
theorem fail_exact (hp : p.Valid) (t : Nat) :
    fail ((machine p).run x t) = true ↔ Fails p (samples x t) :=
  (run_tracks x hp t).fail_iff

/-- A sample in every second cycle, a test of two in a row and windows of two. -/
theorem fail_exact_alternate : fail ((machine ⟨2,2,2⟩).run (fun t => ⟨t % 3 == 0,t % 2 == 0⟩) 7) =
    true ↔ Fails ⟨2,2,2⟩ (samples (fun t => ⟨t % 3 == 0,t % 2 == 0⟩) 7) :=
  fail_exact _ ⟨by decide,by decide,by decide⟩ 7

end Health

namespace Seed

variable {p : Params}

/-! ### The buffer -/

theorem push_bit (v : BitVec 16) (b : Bool) {i : Nat} (hi : i < 16) :
    (v.extractLsb' 0 15 ++ BitVec.ofBool b).getLsbD i = if i = 0 then b else v.getLsbD (i-1) := by
  rw [BitVec.getLsbD_append]
  cases i with
  | zero => simp
  | succ i => simp [show i < 15 by omega]

/-- The newest `s.fillQ` bits are the accepted samples from `start` on. -/
structure Buffered (s : State p) (l : List Bool) (start : Nat) : Prop where
  fill : s.fillQ.toNat ≤ 16
  filling : s.fillQ.toNat < 16 → l.length = start+s.fillQ.toNat
  filled : start+s.fillQ.toNat ≤ l.length
  bit : ∀ j, j < s.fillQ.toNat → l[start+j]? = some (s.bufQ.getLsbD (s.fillQ.toNat-1-j))

theorem full_iff (s : State p) : full s = true ↔ s.fillQ.toNat = 16 := by
  rw [full,beq_iff_eq,← BitVec.toNat_inj]
  rfl

/-- A read that consumes comes in a cycle without a sample. -/
theorem consume_parts {s : State p} {i : In} (h : consume s i = true) :
    full s = true ∧ sampleValid s = false := by
  simp only [consume,Bool.and_eq_true,Bool.not_eq_true'] at h
  obtain ⟨⟨⟨_,hb⟩,_⟩,hf⟩ := h
  exact ⟨hf,by simp [sampleValid,wantSample,hb,hf]⟩

theorem buffered_consume {s : State p} {l : List Bool} {i : In} (h : consume s i = true) :
    Buffered (next s i) l l.length := by
  have hf : (next s i).fillQ = 0 := by simp [next,h,(consume_parts h).2]
  rw [← BitVec.toNat_inj] at hf
  change (next s i).fillQ.toNat = 0 at hf
  refine ⟨by omega,fun _ => by omega,by omega,fun j hj => by omega⟩

theorem Buffered.push {s : State p} {l : List Bool} {start : Nat} {i : In}
    (h : Buffered s l start) (hc : consume s i = false) (hv : sampleValid s = true)
    (hf : full s = false) : Buffered (next s i) (l ++ [sample s]) start := by
  have hlt : s.fillQ.toNat < 16 := by
    have := h.fill
    have hne : s.fillQ.toNat ≠ 16 := fun he => by rw [(full_iff s).mpr he] at hf; cases hf
    omega
  have hfill : (next s i).fillQ.toNat = s.fillQ.toNat+1 := by
    have : (next s i).fillQ = s.fillQ+1 := by simp [next,hc,hv,hf]
    rw [this,BitVec.toNat_add]
    change (s.fillQ.toNat+1) % 32 = _
    omega
  have hbuf : (next s i).bufQ = s.bufQ.extractLsb' 0 15 ++ BitVec.ofBool (sample s) := by
    simp [next,hc,hv,hf]
  have hlen := h.filling hlt
  refine ⟨by omega,fun _ => by simp; omega,by simp; omega,fun j hj => ?_⟩
  rw [hbuf,hfill,push_bit _ _ (by omega)]
  rcases (by omega : j < s.fillQ.toNat ∨ j = s.fillQ.toNat) with hj' | rfl
  · rw [List.getElem?_append_left (by omega),h.bit j hj',if_neg (by omega)]
    congr 2
    omega
  · rw [List.getElem?_append_right (by omega),hlen,Nat.sub_self,if_pos (by omega)]
    rfl

theorem Buffered.stand {s s' : State p} {l : List Bool} {start : Nat} (h : Buffered s l start)
    (hf : s'.fillQ = s.fillQ) (hb : s'.bufQ = s.bufQ) : Buffered s' l start := by
  obtain ⟨h1,h2,h3,h4⟩ := h
  refine ⟨by rwa [hf],by rwa [hf],by rwa [hf],?_⟩
  rw [hf,hb]
  exact h4

theorem Buffered.frozen {s : State p} {l : List Bool} {start : Nat} {i : In}
    (h : Buffered s l start) (hc : consume s i = false) (hf : full s = true) (b : List Bool) :
    Buffered (next s i) (l ++ b) start := by
  have h16 := (full_iff s).mp hf
  have hfilled := h.filled
  have hs : Buffered s (l ++ b) start := by
    refine ⟨h.fill,fun hlt => by omega,?_,fun j hj => ?_⟩
    · rw [List.length_append]
      omega
    · rw [List.getElem?_append_left (by omega)]
      exact h.bit j hj
  exact hs.stand (by simp [next,hc,hf]) (by simp [next,hc,hf])

/-! ### The reads of a run -/

section run

variable (x : Nat → In)

def readAt (p : Params) (x : Nat → In) (t : Nat) : Option (Nat × BitVec 16) :=
  if consume (run p x t) (x t) then some (t,(rdata (run p x t)).extractLsb' 0 16) else none

def reads (p : Params) (x : Nat → In) (t : Nat) : List (Nat × BitVec 16) :=
  Clocked.events (readAt p x) t

/-- A read returned the sixteen accepted samples from `start` on, the oldest in bit 15. -/
structure Returned (p : Params) (x : Nat → In) (start : Nat) (r : Nat × BitVec 16) : Prop where
  before : start+16 ≤ (accepted p x r.1).length
  bit : ∀ j, j < 16 → (accepted p x r.1)[start+j]? = some (r.2.getLsbD (15-j))

theorem rdata_bits {s : State p} (h : status s = stEs16) :
    (rdata s).extractLsb' 0 16 = s.bufQ := by
  rw [rdata,if_pos h]
  exact Bits.extract_low _ _

theorem rdata_no_bits {s : State p} (h : status s ≠ stEs16) :
    (rdata s).extractLsb' 0 16 = 0 := by
  rw [rdata,if_neg h]
  exact Bits.extract_low _ _

theorem consume_iff (s : State p) (i : In) :
    consume s i = true ↔ i.rdEn = true ∧ status s = stEs16 := by
  rw [status_es16]
  simp only [consume,Bool.and_eq_true,Bool.not_eq_true']
  tauto

theorem buffered_returned {t start : Nat} (h : Buffered (run p x t) (accepted p x t) start)
    (hc : consume (run p x t) (x t) = true) :
    Returned p x start (t,(rdata (run p x t)).extractLsb' 0 16) := by
  have h16 := (full_iff _).mp (consume_parts hc).1
  have hfilled := h.filled
  rw [rdata_bits ((consume_iff _ _).mp hc).2]
  refine ⟨?_,fun j hj => ?_⟩
  · change start+16 ≤ (accepted p x t).length
    omega
  have hb := h.bit j (by omega)
  rwa [h16] at hb

/-- The places the reads so far were taken from, and where the next begins. -/
structure Taken (p : Params) (x : Nat → In) (t : Nat) (starts : List Nat) (start : Nat) : Prop where
  returned : List.Forall₂ (Returned p x) starts (reads p x t)
  apart : starts.Pairwise fun a b => a+16 ≤ b
  behind : ∀ a ∈ starts, a+16 ≤ start
  buffered : Buffered (run p x t) (accepted p x t) start

theorem taken_next {t start : Nat} {starts : List Nat} (h : Taken p x t starts start) :
    ∃ starts' start', Taken p x (t+1) starts' start' := by
  have hrun : run p x (t+1) = next (run p x t) (x t) := rfl
  cases hc : consume (run p x t) (x t) with
  | true =>
    have hr : readAt p x t = some (t,(rdata (run p x t)).extractLsb' 0 16) := by
      rw [readAt,hc,if_pos rfl]
    have hacc : accepted p x (t+1) = accepted p x t := by
      rw [accepted_succ,(consume_parts hc).2,if_neg Bool.false_ne_true,List.append_nil]
    have hret := buffered_returned x h.buffered hc
    have hb : start+16 ≤ (accepted p x t).length := hret.before
    refine ⟨starts ++ [start],(accepted p x t).length,?_,?_,?_,?_⟩
    · rw [reads,Clocked.events_succ_some hr]
      exact List.rel_append h.returned (.cons hret .nil)
    · rw [List.pairwise_append]
      refine ⟨h.apart,List.pairwise_singleton _ _,fun a ha b hb => ?_⟩
      rw [List.mem_singleton.mp hb]
      exact h.behind a ha
    · intro a ha
      rcases List.mem_append.mp ha with ha | ha
      · have := h.behind a ha
        omega
      · rw [List.mem_singleton.mp ha]
        exact hb
    · rw [hacc,hrun]
      exact buffered_consume hc
  | false =>
    have hr : readAt p x t = none := by
      rw [readAt,hc,if_neg Bool.false_ne_true]
    refine ⟨starts,start,?_,h.apart,h.behind,?_⟩
    · rw [reads,Clocked.events_succ_none hr]
      exact h.returned
    · rw [accepted_succ,hrun]
      cases hf : full (run p x t) with
      | true => exact h.buffered.frozen hc hf _
      | false =>
        cases hv : sampleValid (run p x t) with
        | true =>
          rw [if_pos rfl]
          exact h.buffered.push hc hv hf
        | false =>
          rw [if_neg Bool.false_ne_true,List.append_nil]
          exact h.buffered.stand (by simp [next,hc,hv]) (by simp [next,hc,hv])

theorem run_taken (t : Nat) : ∃ starts start, Taken p x t starts start := by
  induction t with
  | zero =>
    refine ⟨[],0,.nil,.nil,fun a h => absurd h List.not_mem_nil,?_⟩
    exact ⟨Nat.zero_le _,fun _ => rfl,Nat.zero_le _,fun j hj => by cases hj⟩
  | succ t ih =>
    obtain ⟨starts,start,h⟩ := ih
    exact taken_next x h

/-- Every consuming read returns sixteen consecutive accepted samples, no two reads share
one, and any other read returns none and changes nothing. -/
theorem entropy_once (p : Params) (x : Nat → In) (t : Nat) :
    (∃ starts : List Nat, List.Forall₂ (Returned p x) starts (reads p x t) ∧
      starts.Pairwise fun a b => a+16 ≤ b) ∧
    (status (run p x t) ≠ stEs16 → (rdata (run p x t)).extractLsb' 0 16 = 0 ∧
      ∀ b, next (run p x t) ⟨b,true⟩ = next (run p x t) ⟨b,false⟩) := by
  obtain ⟨starts,start,h⟩ := run_taken (p := p) x t
  refine ⟨⟨starts,h.returned,h.apart⟩,fun hs => ⟨rdata_no_bits hs,fun b => ?_⟩⟩
  have hno : ∀ r, consume (run p x t) ⟨b,r⟩ = false := by
    intro r
    rw [← Bool.not_eq_true,consume_iff]
    exact fun h => hs h.2
  simp only [next,hno]

end run

end Seed

end Rvntt
