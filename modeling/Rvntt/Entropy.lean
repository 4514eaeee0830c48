import Mathlib.Data.Bool.Count
import Rvntt.Seed
import Rvntt.Lib.Clocked
import Rvntt.Lib.Runs
set_option autoImplicit false

/-!
What `seed` hands out. The two health tests compute what they are specified to on
the samples accepted so far; the state machine around them reacts a cycle late.
-/

namespace Rvntt

namespace Health

/-- What the widths derived from the parameters need. -/
structure Params.Valid (p : Params) : Prop where
  rep : 1 ≤ p.repCutoff
  window : 2 ≤ p.apWindow
  cutoff : p.apCutoff ≤ p.apWindow

variable {p : Params}

/-! ### The tests on a sequence of samples -/

def RepFails (p : Params) (l : List Bool) : Prop := Runs.Repeats p.repCutoff l

def ApOver (p : Params) (window : List Bool) : Prop :=
  p.apCutoff ≤ window.count true ∨ p.apCutoff ≤ window.count false

def ApFails (p : Params) (l : List Bool) : Prop := Runs.SomeBlock p.apWindow (ApOver p) l

def Fails (p : Params) (l : List Bool) : Prop := RepFails p l ∨ ApFails p l

structure Tracks (s : State p) (l : List Bool) : Prop where
  prev : l.getLast? = if s.havePrevQ then some s.prevQ else none
  repFail : s.repFailQ = true ↔ RepFails p l
  run : s.repFailQ = false → s.havePrevQ = true → Runs.Trailing s.prevQ s.runQ.toNat l
  pos : s.apPosQ.toNat = (Runs.rest p.apWindow l).length
  ones : s.apPosQ.toNat ≠ 0 → s.apOnesQ.toNat = (Runs.rest p.apWindow l).count true
  apFail : s.apFailQ = true ↔ ApFails p l

theorem tracks_init (hp : p.Valid) : Tracks ({} : State p) [] where
  prev := rfl
  repFail := by
    refine ⟨fun h => absurd h Bool.false_ne_true,?_⟩
    rintro ⟨a,ha⟩
    have := hp.rep
    simp at ha
    omega
  run _ h := by cases h
  pos := by simp [Runs.rest]
  ones h := by simp at h
  apFail := by
    refine ⟨fun h => absurd h Bool.false_ne_true,?_⟩
    rintro ⟨pre,blk,post,h,_,hb,_⟩
    have := hp.window
    simp only [List.nil_eq,List.append_eq_nil_iff] at h
    rw [h.1.2] at hb
    simp at hb
    omega

theorem toNat_lt {w n : Nat} (h : n < 2^w) : (BitVec.ofNat w n).toNat = n := by
  rw [BitVec.toNat_ofNat,Nat.mod_eq_of_lt h]

theorem lt_runW {n : Nat} (h : n ≤ p.repCutoff) : n < 2^p.runW := by
  have := Nat.le_pow_clog (Nat.one_lt_two) (p.repCutoff+1)
  rw [Params.runW]
  omega

theorem lt_winW {n : Nat} (h : n < p.apWindow) : n < 2^p.winW :=
  Nat.lt_of_lt_of_le h (Nat.le_pow_clog Nat.one_lt_two p.apWindow)

theorem lt_cntW {n : Nat} (h : n ≤ p.apWindow) : n < 2^p.cntW := by
  have := Nat.le_pow_clog (Nat.one_lt_two) (p.apWindow+1)
  rw [Params.cntW]
  omega

/-! ### Repetition count -/

/-- Until the test has failed the counter is the length of the current run. -/
theorem Tracks.runNext (hp : p.Valid) {s : State p} {l : List Bool} (h : Tracks s l)
    (hf : s.repFailQ = false) (a : Bool) :
    Runs.Trailing a (Health.runNext s a).toNat (l ++ [a]) := by
  have h1 : (BitVec.ofNat p.runW 1).toNat = 1 := toNat_lt (lt_runW hp.rep)
  rw [Health.runNext]
  cases hc : runContinues s a with
  | true =>
    simp only [runContinues,Bool.and_eq_true,beq_iff_eq] at hc
    obtain ⟨hh,rfl⟩ := hc
    have ht := h.run hf hh
    have hlt : s.runQ.toNat < p.repCutoff := by
      by_contra hge
      have hr := h.repFail.mpr ⟨s.prevQ,((ht p.repCutoff).mpr (by omega)).isInfix⟩
      rw [hf] at hr
      cases hr
    rw [if_pos rfl,BitVec.toNat_add,h1,Nat.mod_eq_of_lt (lt_runW hlt)]
    exact ht.concat_same
  | false =>
    rw [if_neg (by simp),h1]
    refine Runs.trailing_concat_new fun hl => ?_
    rw [h.prev] at hl
    cases hh : s.havePrevQ with
    | false => simp [hh] at hl
    | true =>
      rw [hh,if_pos rfl] at hl
      simp [runContinues,hh,Option.some.inj hl] at hc

theorem Tracks.repFail_accept (hp : p.Valid) {s : State p} {l : List Bool} (h : Tracks s l)
    (a : Bool) : (accept s a).repFailQ = true ↔ RepFails p (l ++ [a]) := by
  rw [RepFails,Runs.repeats_concat hp.rep]
  change (s.repFailQ || _) = true ↔ _
  rw [Bool.or_eq_true,BitVec.ule_iff_toNat_le,toNat_lt (lt_runW (Nat.le_refl _))]
  cases hf : s.repFailQ with
  | true =>
    have hr := h.repFail.mp hf
    exact ⟨fun _ => .inl hr,fun _ => .inl rfl⟩
  | false =>
    have hn : ¬Runs.Repeats p.repCutoff l := fun hr => by
      have := h.repFail.mpr hr
      rw [hf] at this
      cases this
    simp only [Bool.false_eq_true,false_or,hn]
    exact (h.runNext hp hf a p.repCutoff).symm

/-! ### Adaptive proportion -/

theorem Tracks.windowStart {s : State p} {l : List Bool} (h : Tracks s l) (a : Bool)
    (hp : p.Valid) : (apOnesNow s a).toNat = (Runs.rest p.apWindow l ++ [a]).count true := by
  have hlt : (Runs.rest p.apWindow l).length < p.apWindow := by
    rw [Runs.length_rest]
    exact Nat.mod_lt _ (by have := hp.window; omega)
  have hbase : (if atWindowStart s then BitVec.ofNat p.cntW 0 else s.apOnesQ).toNat =
      (Runs.rest p.apWindow l).count true := by
    by_cases h0 : s.apPosQ.toNat = 0
    · have hs : atWindowStart s = true := by
        simp only [atWindowStart,beq_iff_eq]
        exact BitVec.eq_of_toNat_eq (by simpa using h0)
      rw [h.pos,List.length_eq_zero_iff] at h0
      simp [hs,h0]
    · have hs : atWindowStart s = false := by
        simp only [atWindowStart,beq_eq_false_iff_ne]
        intro he
        rw [he] at h0
        simp at h0
      rw [hs,if_neg (by simp),h.ones h0]
  have hbit : (if a then BitVec.ofNat p.cntW 1 else BitVec.ofNat p.cntW 0).toNat =
      [a].count true := by
    cases a with
    | true => exact toNat_lt (lt_cntW (by have := hp.window; omega))
    | false => simp
  have hcount : (Runs.rest p.apWindow l).count true ≤ (Runs.rest p.apWindow l).length :=
    List.count_le_length
  have hone : [a].count true ≤ 1 := List.count_le_length
  rw [apOnesNow,BitVec.toNat_add,hbase,hbit,← List.count_append,Nat.mod_eq_of_lt]
  refine lt_cntW ?_
  rw [List.count_append]
  omega

theorem Tracks.pos_lt (hp : p.Valid) {s : State p} {l : List Bool} (h : Tracks s l) :
    s.apPosQ.toNat < p.apWindow := by
  rw [h.pos,Runs.length_rest]
  exact Nat.mod_lt _ (by have := hp.window; omega)

theorem Tracks.windowEnd_iff (hp : p.Valid) {s : State p} {l : List Bool} (h : Tracks s l) :
    atWindowEnd s = true ↔ (Runs.rest p.apWindow l).length+1 = p.apWindow := by
  have hw := hp.window
  have hn : (BitVec.ofNat p.winW (p.apWindow-1)).toNat = p.apWindow-1 :=
    toNat_lt (lt_winW (by omega))
  rw [← h.pos,atWindowEnd,beq_iff_eq,← BitVec.toNat_inj,hn]
  omega

theorem Tracks.over_iff (hp : p.Valid) {s : State p} {l : List Bool} (h : Tracks s l) (a : Bool)
    (he : (Runs.rest p.apWindow l).length+1 = p.apWindow) :
    apOver s a = true ↔ ApOver p (Runs.rest p.apWindow l ++ [a]) := by
  have hones := h.windowStart a hp
  have hlen : (Runs.rest p.apWindow l ++ [a]).length = p.apWindow := by simpa using he
  have hsum : (Runs.rest p.apWindow l ++ [a]).count true+
      (Runs.rest p.apWindow l ++ [a]).count false = p.apWindow :=
    (List.count_true_add_count_false _).trans hlen
  have hcut : (BitVec.ofNat p.cntW p.apCutoff).toNat = p.apCutoff := toNat_lt (lt_cntW hp.cutoff)
  have hzeros : (apZerosNow s a).toNat = (Runs.rest p.apWindow l ++ [a]).count false := by
    have hwin : (BitVec.ofNat p.cntW p.apWindow).toNat = p.apWindow :=
      toNat_lt (lt_cntW (Nat.le_refl _))
    rw [apZerosNow,BitVec.toNat_sub_of_le (by rw [BitVec.le_def,hones,hwin]; omega),hones,hwin]
    omega
  rw [apOver,Bool.or_eq_true,BitVec.ule_iff_toNat_le,BitVec.ule_iff_toNat_le,hcut,hones,hzeros]
  rfl

theorem Tracks.apFail_accept (hp : p.Valid) {s : State p} {l : List Bool} (h : Tracks s l)
    (a : Bool) : (accept s a).apFailQ = true ↔ ApFails p (l ++ [a]) := by
  rw [ApFails,Runs.someBlock_concat (by have := hp.window; omega)]
  change (s.apFailQ || _) = true ↔ _
  rw [Bool.or_eq_true,Bool.and_eq_true,h.apFail,h.windowEnd_iff hp]
  refine or_congr Iff.rfl (and_congr_right fun he => ?_)
  exact h.over_iff hp a he

theorem tracks_accept (hp : p.Valid) {s : State p} {l : List Bool} (h : Tracks s l) (a : Bool) :
    Tracks (accept s a) (l ++ [a]) := by
  have hw := hp.window
  have hlt := h.pos_lt hp
  have hrest : (Runs.rest p.apWindow (l ++ [a])).length = (l.length+1) % p.apWindow := by
    rw [Runs.length_rest,List.length_append,List.length_singleton]
  have hpos : (accept s a).apPosQ.toNat = (Runs.rest p.apWindow (l ++ [a])).length := by
    change (if atWindowEnd s then BitVec.ofNat p.winW 0 else s.apPosQ+BitVec.ofNat _ 1).toNat = _
    rw [hrest]
    have hmod := h.pos
    rw [Runs.length_rest] at hmod
    have hsplit : (l.length+1) % p.apWindow = (s.apPosQ.toNat+1) % p.apWindow := by
      rw [hmod,Nat.mod_add_mod]
    rw [hsplit]
    by_cases he : atWindowEnd s = true
    · have := (h.windowEnd_iff hp).mp he
      rw [← h.pos] at this
      rw [if_pos he,this,Nat.mod_self]
      simp
    · have hne : s.apPosQ.toNat+1 ≠ p.apWindow := by
        intro h'
        rw [h.pos] at h'
        exact he ((h.windowEnd_iff hp).mpr h')
      rw [if_neg he,BitVec.toNat_add,toNat_lt (lt_winW hw),
        Nat.mod_eq_of_lt (lt_winW (by omega)),Nat.mod_eq_of_lt (by omega)]
  refine ⟨?_,h.repFail_accept hp a,?_,hpos,?_,h.apFail_accept hp a⟩
  · rw [List.getLast?_concat]
    rfl
  · intro hf _
    refine h.runNext hp ?_ a
    change (s.repFailQ || _) = false at hf
    exact (Bool.or_eq_false_iff.mp hf).1
  · intro h0
    have hne : (Runs.rest p.apWindow l).length+1 < p.apWindow := by
      rw [hpos,hrest] at h0
      rw [← h.pos]
      by_contra hge
      apply h0
      have hmod := h.pos
      rw [Runs.length_rest] at hmod
      rw [← Nat.mod_add_mod,← hmod,show s.apPosQ.toNat+1 = p.apWindow by omega,Nat.mod_self]
    rw [Runs.rest_concat (by omega) l a hne]
    exact h.windowStart a hp

theorem Tracks.fail_iff {s : State p} {l : List Bool} (h : Tracks s l) :
    fail s = true ↔ Fails p l := by
  rw [fail,Bool.or_eq_true,h.repFail,h.apFail]
  rfl

theorem Fails.concat (hp : p.Valid) {l : List Bool} (h : Fails p l) (a : Bool) :
    Fails p (l ++ [a]) := by
  rcases h with h | h
  · exact .inl ((Runs.repeats_concat hp.rep).mpr (.inl h))
  · exact .inr ((Runs.someBlock_concat (by have := hp.window; omega) _ _ _).mpr (.inl h))

end Health

namespace Seed

open Health (Fails Tracks)

variable {p : Params}

def machine (p : Params) : Clocked.Machine (State p) In := ⟨{},next⟩

abbrev run (p : Params) (x : Nat → In) (t : Nat) : State p := (machine p).run x t

def acceptedAt (p : Params) (x : Nat → In) (t : Nat) : Option Bool :=
  if sampleValid (run p x t) then some (sample (run p x t)) else none

def accepted (p : Params) (x : Nat → In) (t : Nat) : List Bool :=
  Clocked.events (acceptedAt p x) t

structure Follows (s : State p) (l : List Bool) : Prop where
  health : Tracks s.health l
  bist : s.bistQ.toNat = min l.length p.bistSamples

theorem bistDone_iff {s : State p} {l : List Bool} (h : Follows s l) :
    bistDone s = true ↔ p.bistSamples ≤ l.length := by
  have hlt : p.bistSamples < 2^p.bistW := by
    have := Nat.le_pow_clog Nat.one_lt_two (p.bistSamples+1)
    rw [Params.bistW]
    omega
  rw [bistDone,BitVec.ule_iff_toNat_le,Health.toNat_lt hlt,h.bist]
  omega

theorem follows_next (hp : p.toParams.Valid) {s : State p} {l : List Bool} (h : Follows s l)
    (i : In) : Follows (next s i) (l ++ (if sampleValid s then [sample s] else [])) := by
  cases hv : sampleValid s with
  | false =>
    rw [if_neg (by simp),List.append_nil]
    refine ⟨?_,?_⟩
    · simpa [next,Health.next,hv] using h.health
    · simpa [next,hv] using h.bist
  | true =>
    rw [if_pos rfl]
    refine ⟨?_,?_⟩
    · have ha := Health.tracks_accept hp h.health (sample s)
      simpa [next,Health.next,hv] using ha
    · have hdone := bistDone_iff h
      have hb := h.bist
      simp only [next,hv,Bool.and_true,List.length_append,List.length_singleton]
      cases hd : bistDone s with
      | true =>
        have := hdone.mp hd
        simp only [Bool.not_true,Bool.false_eq_true,if_false]
        omega
      | false =>
        have hlt : l.length < p.bistSamples := by
          by_contra hge
          rw [hdone.mpr (by omega)] at hd
          cases hd
        have hw : p.bistSamples < 2^p.bistW := by
          have := Nat.le_pow_clog Nat.one_lt_two (p.bistSamples+1)
          rw [Params.bistW]
          omega
        simp only [Bool.not_false,if_true]
        rw [BitVec.toNat_add,Health.toNat_lt (by omega),Nat.mod_eq_of_lt (by omega)]
        omega

section run

variable (x : Nat → In)

theorem accepted_succ (t : Nat) : accepted p x (t+1) = accepted p x t ++
    (if sampleValid (run p x t) then [sample (run p x t)] else []) := by
  rw [accepted,Clocked.events_succ,acceptedAt]
  cases sampleValid (run p x t) <;> rfl

theorem run_follows (hp : p.toParams.Valid) (t : Nat) :
    Follows (run p x t) (accepted p x t) := by
  induction t with
  | zero => exact ⟨Health.tracks_init hp,by simp [accepted,machine]⟩
  | succ t ih =>
    rw [accepted_succ]
    exact follows_next hp ih (x t)

/-! ### What an ES16 status promises -/

/-- If cycle `t` reports ES16 the start-up test is over and no test has failed on the
samples accepted so far. -/
def Clean (p : Params) (x : Nat → In) (t : Nat) : Prop :=
  status (run p x t) = stEs16 →
    p.bistSamples ≤ (accepted p x t).length ∧ ¬Fails p.toParams (accepted p x t)

/-- The sample accepted in cycle `t` is the first to fail a test, and with it the
start-up test is over and the buffer full. -/
structure Late (p : Params) (x : Nat → In) (t : Nat) : Prop where
  valid : sampleValid (run p x t) = true
  first : ¬Fails p.toParams (accepted p x t)
  fails : Fails p.toParams (accepted p x t ++ [sample (run p x t)])
  started : p.bistSamples ≤ (accepted p x t).length+1
  fills : (run p x t).fillQ = 15 ∨ (run p x t).fillQ = 16

theorem status_es16 (s : State p) :
    status s = stEs16 ↔ s.deadQ = false ∧ bistDone s = true ∧ full s = true := by
  rw [status]
  cases s.deadQ <;> cases bistDone s <;> cases full s <;> decide

theorem full_next {s : State p} (i : In) (hv : sampleValid s = true) :
    full (next s i) = true ↔ s.fillQ = 15 ∨ s.fillQ = 16 := by
  have hc : consume s i = false := by
    by_contra hc
    simp only [consume,Bool.not_eq_false,Bool.and_eq_true] at hc
    simp [sampleValid,wantSample,hc.1.1.2,hc.2] at hv
  simp only [full,next,hc,hv,Bool.false_eq_true,if_false,Bool.true_and,beq_iff_eq]
  cases hf : s.fillQ == 16 with
  | true =>
    rw [beq_iff_eq] at hf
    simp [hf]
  | false =>
    rw [beq_eq_false_iff_ne] at hf
    simp only [Bool.not_false,if_true,hf,or_false]
    generalize s.fillQ = f
    revert f
    decide

theorem clean_succ_iff (hp : p.toParams.Valid) (t : Nat) :
    Clean p x (t+1) ↔ ¬Late p x t := by
  have hdead : (run p x (t+1)).deadQ = ((run p x t).deadQ || healthFail (run p x t)) := rfl
  have hfail := (run_follows x hp t).health.fail_iff
  have hdone := bistDone_iff (run_follows x hp (t+1))
  constructor
  · intro hc hl
    have hacc : accepted p x (t+1) = accepted p x t ++ [sample (run p x t)] := by
      rw [accepted_succ,if_pos hl.valid]
    have hd : (run p x (t+1)).deadQ = false := by
      have h1 : (run p x t).deadQ = false := by
        have := hl.valid
        simp only [sampleValid,wantSample,Bool.and_eq_true,Bool.not_eq_true'] at this
        exact this.1
      rw [hdead,h1,Bool.false_or]
      by_contra h2
      rw [Bool.not_eq_false] at h2
      exact hl.first (hfail.mp h2)
    have hes := (status_es16 _).mpr ⟨hd,hdone.mpr (by rw [hacc]; simpa using hl.started),
      (full_next (x t) hl.valid).mpr hl.fills⟩
    exact (hc hes).2 (hacc ▸ hl.fails)
  · intro hl hes
    obtain ⟨hd,hb,hf⟩ := (status_es16 _).mp hes
    rw [hdead,Bool.or_eq_false_iff] at hd
    have hno : ¬Fails p.toParams (accepted p x t) := by
      intro h
      have h2 : healthFail (run p x t) = true := hfail.mpr h
      rw [hd.2] at h2
      cases h2
    refine ⟨hdone.mp hb,fun hfails => ?_⟩
    cases hv : sampleValid (run p x t) with
    | false =>
      rw [accepted_succ,hv,if_neg (by simp),List.append_nil] at hfails
      exact hno hfails
    | true =>
      have hacc : accepted p x (t+1) = accepted p x t ++ [sample (run p x t)] := by
        rw [accepted_succ,if_pos hv]
      have hlen := hdone.mp hb
      rw [hacc] at hfails hlen
      exact hl ⟨hv,hno,hfails,by simpa using hlen,(full_next (x t) hv).mp hf⟩

/-- In every cycle but one that follows a late failure, ES16 is clean. -/
theorem clean_iff (hp : p.toParams.Valid) :
    Clean p x 0 ∧ ∀ t, Clean p x (t+1) ↔ ¬Late p x t := by
  refine ⟨fun h => ?_,clean_succ_iff x hp⟩
  have hf := ((status_es16 _).mp h).2.2
  cases hf

end run

theorem valid_default : (({} : Params).toParams).Valid := ⟨by decide,by decide,by decide⟩

theorem clean_iff_stuck : Clean {} (fun _ => ⟨false,false⟩) 0 ∧ ∀ t,
    Clean {} (fun _ => ⟨false,false⟩) (t+1) ↔ ¬Late {} (fun _ => ⟨false,false⟩) t :=
  clean_iff _ valid_default

/-! ### The start-up test -/

section startup

variable (x : Nat → In)

def delayed (t : Nat) : Bool := if t < 2 then false else (x (t-2)).stubBit

theorem sample_eq (t : Nat) : sample (run p x t) = delayed x t := by
  cases t with
  | zero => rfl
  | succ t => cases t with
    | zero => rfl
    | succ t => rfl

def firstSamples (t : Nat) : List Bool := (List.range t).map (delayed x)

theorem firstSamples_succ (t : Nat) : firstSamples x (t+1) = firstSamples x t ++ [delayed x t] := by
  simp [firstSamples,List.range_succ]

theorem run_startup (hp : p.toParams.Valid) (t : Nat) (ht : t ≤ p.bistSamples)
    (hf : ¬Fails p.toParams (firstSamples x t)) : accepted p x t = firstSamples x t ∧
      (run p x t).deadQ = false ∧ (run p x t).fillQ.toNat = min t 16 := by
  induction t with
  | zero => exact ⟨rfl,rfl,rfl⟩
  | succ t ih =>
    have hf' : ¬Fails p.toParams (firstSamples x t) := by
      intro h
      rw [firstSamples_succ] at hf
      exact hf (h.concat hp _)
    obtain ⟨hacc,hdead,hfill⟩ := ih (by omega) hf'
    have hfol := run_follows x hp t
    have hb : bistDone (run p x t) = false := by
      by_contra hb
      have := (bistDone_iff hfol).mp (by simpa using hb)
      rw [hacc,firstSamples,List.length_map,List.length_range] at this
      omega
    have hv : sampleValid (run p x t) = true := by simp [sampleValid,wantSample,hdead,hb]
    have hh : healthFail (run p x t) = false := by
      by_contra h
      rw [Bool.not_eq_false] at h
      exact hf' (hacc ▸ hfol.health.fail_iff.mp h)
    have hc : consume (run p x t) (x t) = false := by simp [consume,hb]
    refine ⟨?_,?_,?_⟩
    · rw [accepted_succ,hv,if_pos rfl,hacc,firstSamples_succ,sample_eq]
    · change ((run p x t).deadQ || healthFail (run p x t)) = false
      rw [hdead,hh]
      rfl
    · change (if consume (run p x t) (x t) then _
        else if sampleValid (run p x t) && !full (run p x t) then (run p x t).fillQ+1
        else (run p x t).fillQ).toNat = _
      rw [hc,hv,if_neg (by simp),full]
      by_cases h16 : (run p x t).fillQ = 16
      · rw [h16] at hfill ⊢
        change 16 = min t 16 at hfill
        change 16 = min (t+1) 16
        omega
      · have hne : (run p x t).fillQ.toNat ≠ 16 := fun h => h16 (BitVec.eq_of_toNat_eq h)
        rw [if_pos (by simpa using h16),BitVec.toNat_add]
        change ((run p x t).fillQ.toNat+1) % 32 = _
        omega

end startup

/-- Alternating bits, then zeros from the sample of index 1003 on. -/
def stuckLate (t : Nat) : In where
  stubBit := decide (t+2 < 1003 ∧ t % 2 = 0)
  rdEn := false

theorem delayed_stuckLate (u : Nat) : delayed stuckLate u = decide (2 ≤ u ∧ u < 1003 ∧ u % 2 = 0) := by
  rw [delayed]
  split
  · simp [show ¬2 ≤ u by omega]
  · rw [stuckLate]
    refine decide_eq_decide.mpr ?_
    omega

theorem fails_stuckLate :
    Fails ({} : Params).toParams (firstSamples stuckLate 1023 ++ [delayed stuckLate 1023]) := by
  rw [← firstSamples_succ]
  refine .inl ⟨false,List.IsSuffix.isInfix ⟨firstSamples stuckLate 1003,?_⟩⟩
  rw [firstSamples,firstSamples,show 1023+1 = 1003+21 by rfl,List.range_add,List.map_append,
    List.map_map]
  refine congrArg _ (List.eq_replicate_iff.mpr ⟨by simp,fun b hb => ?_⟩).symm
  obtain ⟨k,_,rfl⟩ := List.mem_map.mp hb
  simp [delayed_stuckLate]

theorem quiet_stuckLate : ¬Fails ({} : Params).toParams (firstSamples stuckLate 1023) := by
  rintro (⟨b,pre,post,h⟩ | ⟨pre,blk,post,h,_,hb,_⟩)
  · have hlen := congrArg List.length h
    simp only [List.length_append,List.length_replicate,firstSamples,List.length_map,
      List.length_range] at hlen
    -- two neighbours of the alternating part lie in the run
    have hget : ∀ k, k < 21 → delayed stuckLate (pre.length+k) = b := by
      intro k hk
      have hj := congrArg (fun l => l[pre.length+k]?) h
      simp only [List.append_assoc] at hj
      rw [List.getElem?_append_right (by omega),Nat.add_sub_cancel_left,
        List.getElem?_append_left (by simpa using hk),List.getElem?_replicate,if_pos hk,
        firstSamples,List.getElem?_map,List.getElem?_range (by omega)] at hj
      exact (Option.some.inj hj).symm
    have h0 := hget 0 (by omega)
    have h1 := hget 1 (by omega)
    have h2 := hget 2 (by omega)
    rw [delayed_stuckLate] at h0 h1 h2
    rw [← h1,decide_eq_decide] at h0 h2
    omega
  · have hlen := congrArg List.length h
    simp only [List.length_append,firstSamples,List.length_map,List.length_range,hb] at hlen
    change 1023 = pre.length+1024+post.length at hlen
    omega

/-- The last start-up sample fails the repetition test, and the next cycle still shows the
sixteen samples buffered first. -/
theorem clean_fails_stuckLate : ¬Clean {} stuckLate 1024 := by
  have hp := valid_default
  obtain ⟨hacc,hdead,hfill⟩ := run_startup (p := {}) stuckLate hp 1023 (by decide) quiet_stuckLate
  have hb : bistDone (run {} stuckLate 1023) = false := by
    by_contra hb
    have := (bistDone_iff (run_follows stuckLate hp 1023)).mp (by simpa using hb)
    rw [hacc,firstSamples,List.length_map,List.length_range] at this
    revert this
    decide
  rw [clean_succ_iff stuckLate hp 1023,not_not]
  refine ⟨by simp [sampleValid,wantSample,hdead,hb],?_,?_,?_,.inr (BitVec.eq_of_toNat_eq hfill)⟩
  · rw [hacc]
    exact quiet_stuckLate
  · rw [hacc,sample_eq]
    exact fails_stuckLate
  · rw [hacc,firstSamples,List.length_map,List.length_range]

end Seed

end Rvntt
