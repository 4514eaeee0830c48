import Rvntt.UartCheck
set_option autoImplicit false

/-!
What the checker passes runs as it says: no trap, no store to the code, and every register of
the UART in order.
-/

namespace Rvntt.UartCheck

open Isa

/-- What the facts say of a machine, and of what its program has read of the UART. -/
structure Facts.Holds {aw : Nat} (ram : Word) (f : Facts) (m : Machine aw)
    (q : Bool × UartOp.Reader) : Prop where
  regs : ∀ r, (f.get r).Holds q.1 q.2.valid (m.regs r)
  words : ∀ x ∈ f.words, ∀ a, Aligned a → index ram aw a = x.1 →
    Machine.wordAt ram m.mem a = x.2
  ready : f.ready = true → q.1 = true
  valid : f.valid = true → q.2.valid = true
  byte : f.byte = true → q.2.byte.isSome = true

variable {aw : Nat} {ram mmio : Word} {m m' : Machine aw} {f g : Facts}
  {q q' : Bool × UartOp.Reader}

/-! ### Words of memory -/

section words

variable {a b : Word}

theorem wordAt_byte (mem : BitVec (aw+2) → BitVec 8) (ha : Aligned a) {k : Nat} (hk : k < 4) :
    (Machine.wordAt ram mem a).extractLsb' (8*k) 8 = mem (byteAddr ram (a+BitVec.ofNat 32 k)) := by
  have hz := (aligned_iff_toNat a).mp ha
  rw [Machine.wordAt,LoadOp.value,← portWord_word (fun b => mem (byteAddr ram b)) a hz]
  exact portWord_byte _ _ (by omega) hk

theorem stored_byte (hb : ram.toNat % 4 = 0) (ha : Aligned a) {op : StoreOp}
    (hz : b.toNat % op.size = 0) (v : Word) {k : Nat} (hk : k < 4) :
    (Access.store op b v).stored ram (byteAddr ram (a+BitVec.ofNat 32 k) : BitVec (aw+2)) =
      if index ram aw a = index ram aw b ∧ b.toNat % 4 ≤ k ∧ k < b.toNat % 4+op.size then
        some (v.extractLsb' (8*(k-b.toNat % 4)) 8) else none := by
  have hz' := (aligned_iff_toNat a).mp ha
  have hadd : (a+BitVec.ofNat 32 k).toNat = a.toNat+k := by
    have := a.isLt
    rw [BitVec.toNat_add,BitVec.toNat_ofNat]
    omega
  have hw : (byteAddr ram (a+BitVec.ofNat 32 k) : BitVec (aw+2)).extractLsb' 2 aw =
      Ram.wordAddr ram a :=
    (byteAddr_word _).trans (wordAddr_congr hb (by rw [hadd]; omega))
  have hl : (byteAddr ram (a+BitVec.ofNat 32 k) : BitVec (aw+2)).toNat % 4 = k := by
    rw [byteAddr_lane hb,hadd]
    omega
  have hsize : b.toNat % 4+op.size ≤ 4 := by
    cases op <;> simp only [StoreOp.size] at hz ⊢ <;> omega
  have hc := covers_iff hb hsize (byteAddr ram (a+BitVec.ofNat 32 k) : BitVec (aw+2))
  rw [hw,hl,← BitVec.toNat_inj] at hc
  rw [Access.stored]
  by_cases h : index ram aw a = index ram aw b ∧ b.toNat % 4 ≤ k ∧ k < b.toNat % 4+op.size
  · have hs := covers_sub hb (hw.trans (BitVec.eq_of_toNat_eq h.1)) (by rw [hl]; exact h.2.1)
    rw [if_pos (hc.mpr h),if_pos h,hs,hl]
  · rw [if_neg (mt hc.mp h),if_neg h]

theorem wordAt_memNext (hb : ram.toNat % 4 = 0) (ha : Aligned a) {op : StoreOp}
    (hz : b.toNat % op.size = 0) (v : Word) (hne : index ram aw a ≠ index ram aw b) :
    Machine.wordAt ram (m.memNext ram (.store op b v)) a = Machine.wordAt ram m.mem a := by
  refine word_ext fun k hk => ?_
  rw [wordAt_byte _ ha hk,wordAt_byte _ ha hk,Machine.memNext,stored_byte hb ha hz v hk,
    if_neg fun h => hne h.1]
  rfl

theorem wordAt_sw (hb : ram.toNat % 4 = 0) (ha : Aligned a) (hz : b.toNat % 4 = 0) (v : Word)
    (heq : index ram aw a = index ram aw b) :
    Machine.wordAt ram (m.memNext ram (.store .sw b v)) a = v := by
  refine word_ext fun k hk => ?_
  rw [wordAt_byte _ ha hk,Machine.memNext,stored_byte hb ha hz v hk,hz,
    if_pos ⟨heq,Nat.zero_le k,by simpa [StoreOp.size] using hk⟩]
  rfl

end words

/-! ### Facts that stay -/

namespace Facts.Holds

theorem mono (h : f.Holds ram m q) (hr : q.1 = true → q'.1 = true)
    (hv : q.2.valid = true → q'.2.valid = true)
    (hb : q.2.byte.isSome = true → q'.2.byte.isSome = true) : f.Holds ram m q' where
  regs r := (h.regs r).mono hr hv
  words := h.words
  ready hf := hr (h.ready hf)
  valid hf := hv (h.valid hf)
  byte hf := hb (h.byte hf)

theorem le (h : f.Holds ram m q) (hle : f.le g = true) : g.Holds ram m q := by
  simp only [Facts.le,Bool.and_eq_true,Bool.or_eq_true,Bool.not_eq_true',List.all_eq_true,
    List.contains_iff_mem] at hle
  obtain ⟨⟨⟨⟨hregs,hwords⟩,hready⟩,hvalid⟩,hbyte⟩ := hle
  have hflag : ∀ {a b : Bool}, a = true ∨ b = false → b = true → a = true := by
    intro a b hab hb
    rw [hb] at hab
    exact hab.resolve_right Bool.noConfusion
  refine ⟨fun r => ?_,fun x hx => h.words x (hwords x hx),fun hg => h.ready (hflag hready hg),
    fun hg => h.valid (hflag hvalid hg),fun hg => h.byte (hflag hbyte hg)⟩
  rw [get]
  by_cases hr : r = 0
  · rw [if_pos hr,hr]
    exact h.regs 0
  · rw [if_neg hr]
    cases hx : g.regs.find? fun p => p.1 == r with
    | none => trivial
    | some x =>
      have hp := List.find?_some hx
      have hxr : x.1 = r := beq_iff_eq.mp hp
      exact (h.regs r).le (hxr ▸ hregs x (List.mem_of_find?_eq_some hx))

theorem set (h : f.Holds ram m q) {r : BitVec 5} {v : Val} {w : Word}
    (hv : v.Holds q.1 q.2.valid w) (hregs : m'.regs = m.regsNext (some (r,w)))
    (hmem : m'.mem = m.mem) : (f.set r v).Holds ram m' q := by
  have hset : ∀ {α : Type} (get : Facts → α),
      (∀ l, get {f with regs := l} = get f) → get (f.set r v) = get f := by
    intro α get hget
    rw [Facts.set]
    split
    · rfl
    · exact hget _
  constructor
  · intro r'
    rw [get_set,hregs]
    change Val.Holds _ _ (if r' = r ∧ r ≠ 0 then w else m.regs r') _
    split
    · exact hv
    · exact h.regs r'
  · rw [hset Facts.words fun _ => rfl,hmem]
    exact h.words
  · rw [hset Facts.ready fun _ => rfl]
    exact h.ready
  · rw [hset Facts.valid fun _ => rfl]
    exact h.valid
  · rw [hset Facts.byte fun _ => rfl]
    exact h.byte

theorem same (h : f.Holds ram m q) (hregs : m'.regs = m.regs) (hmem : m'.mem = m.mem) :
    f.Holds ram m' q := by
  refine ⟨fun r => ?_,?_,h.ready,h.valid,h.byte⟩
  · rw [hregs]
    exact h.regs r
  · rw [hmem]
    exact h.words

theorem get_word (h : f.Holds ram m q) {r : BitVec 5} {w : Word} (hr : f.get r = .word w) :
    m.regs r = w := by
  have := h.regs r
  rw [hr] at this
  exact this

theorem nonzero (h : f.Holds ram m q) {v : Val} {w : Word} (hv : v.Holds q.1 q.2.valid w)
    (hw : w ≠ 0) : (f.nonzero v).Holds ram m q := by
  cases v with
  | txReady => exact ⟨h.regs,h.words,fun _ => hv hw,h.valid,h.byte⟩
  | rxValid => exact ⟨h.regs,h.words,h.ready,fun _ => hv hw,h.byte⟩
  | _ => exact h

theorem sent (h : f.Holds ram m q) :
    Holds ram {f.map .sent with ready := false} m (false,q.2) where
  regs r := by
    change ((f.map .sent).get r).Holds _ _ _
    rw [get_map f rfl rfl]
    exact (h.regs r).sent
  words := h.words
  ready hf := by cases hf
  valid := h.valid
  byte := h.byte

theorem taken (h : f.Holds ram m q) (l : List (BitVec 8)) :
    Holds ram {f.map .taken with valid := false, byte := false} m (q.1,{received := l}) where
  regs r := by
    change ((f.map .taken).get r).Holds _ _ _
    rw [get_map f rfl rfl]
    exact (h.regs r).taken
  words := h.words
  ready := h.ready
  valid hf := by cases hf
  byte hf := by cases hf

theorem put (h : f.Holds ram m q) (hb : ram.toNat % 4 = 0) {op : StoreOp} {b v : Word}
    (hz : b.toNat % op.size = 0) {val : Val} (hv : val.Holds q.1 q.2.valid v)
    (hregs : m'.regs = m.regs) (hmem : m'.mem = m.memNext ram (.store op b v)) :
    (f.put (index ram aw b) op val).Holds ram m' q := by
  have hrest : ∀ x ∈ f.words.filter fun y => y.1 != index ram aw b, ∀ a, Aligned a →
      index ram aw a = x.1 → Machine.wordAt ram m'.mem a = x.2 := by
    intro x hx a ha hi
    obtain ⟨hx,hne⟩ := List.mem_filter.mp hx
    rw [hmem,wordAt_memNext hb ha hz v (hi ▸ bne_iff_ne.mp hne)]
    exact h.words x hx a ha hi
  have hdrop : Facts.Holds ram {f with words := f.words.filter fun y => y.1 != index ram aw b}
      m' q := by
    refine ⟨fun r => ?_,hrest,h.ready,h.valid,h.byte⟩
    rw [hregs]
    exact h.regs r
  cases op with
  | sw =>
    cases val with
    | word u =>
      obtain rfl : v = u := hv
      refine ⟨hdrop.regs,fun x hx a ha hi => ?_,h.ready,h.valid,h.byte⟩
      rcases List.mem_cons.mp hx with rfl | hx
      · rw [hmem]
        exact wordAt_sw hb ha hz _ hi
      · exact hrest x hx a ha hi
    | _ => exact hdrop
  | _ => exact hdrop

theorem get_stored (h : f.Holds ram m q) {a : Word} (ha : Aligned a) :
    (f.word (index ram aw a)).Holds q.1 q.2.valid (Machine.wordAt ram m.mem a) := by
  rw [word]
  cases hx : f.words.find? fun x => x.1 == index ram aw a with
  | none => trivial
  | some x =>
    have hp := List.find?_some hx
    exact h.words x (List.mem_of_find?_eq_some hx) a ha (beq_iff_eq.mp hp).symm

end Facts.Holds

/-! ### One instruction -/

section step

variable {p : Mmio.Params} {m : Machine aw} {x : SocIn} {n : Nat} {s : Succ}

def Follows (o : Option UartOp) (q q' : Bool × UartOp.Reader) : Prop :=
  o.toList.foldlM UartOp.txNext q.1 = some q'.1 ∧ o.toList.foldlM UartOp.rxNext q.2 = some q'.2

/-- What one step is to give: it goes where the checker has looked, and finds there what the
checker knows. -/
structure Steps (p : Mmio.Params) (n : Nat) (m : Machine aw) (x : SocIn)
    (q q' : Bool × UartOp.Reader) (s : Succ) : Prop where
  retired : (m.socEvent p x).trap = none
  order : Follows (m.uartOp p x) q q'
  code : ∀ a, Aligned a → index p.ramBase aw a < n →
    Machine.wordAt p.ramBase (m.socStep p x).mem a = Machine.wordAt p.ramBase m.mem a
  next : (∃ g, s.fall = some g ∧ (m.socStep p x).pc = m.pc+4 ∧
      g.Holds p.ramBase (m.socStep p x) q') ∨
    ∃ j, s.jump = some j ∧ (m.socStep p x).pc = j.1 ∧ j.2.Holds p.ramBase (m.socStep p x) q'

theorem socStep_exec {i : Instr} {o : Outcome}
    (hi : Instr.decode (m.fetch p.ramBase) = some i) (hc : ∀ v, i.csrAccess v = none)
    (ho : i.exec (m.env (m.socView p x.dev)) = some o) (ht : o.trap = none) :
    (m.socStep p x).pc = o.next ∧ (m.socStep p x).regs = m.regsNext o.dest ∧
      (m.socStep p x).mem = m.memNext p.ramBase ((stores (m.env (m.socView p x.dev)) i).toRam p) ∧
      m.socAccess p x = stores (m.env (m.socView p x.dev)) i ∧
      (m.socEvent p x).trap = none := by
  obtain ⟨hs,hst,he⟩ := Hart.step_exec (h := m.toHart) (w := m.socView p x.dev) x.vol
    (Instr.encode_of_decode hi).symm hc ho ht
  have hacc : m.socAccess p x = stores (m.env (m.socView p x.dev)) i := hst
  rw [Machine.socStep,Machine.socEvent,hacc,hs,he]
  exact ⟨rfl,rfl,rfl,rfl,rfl⟩

theorem uartOp_quiet {i : Instr} (hi : Instr.decode (m.fetch p.ramBase) = some i)
    (hl : ∀ op rd rs1 k, i ≠ .load op rd rs1 k) (ha : m.socAccess p x = .idle) :
    m.uartOp p x = none := by
  have hload : m.toHart.loaded (m.socView p x.dev) = none := by
    rw [Hart.loaded]
    rw [show Instr.decode (m.socView p x.dev).insn = some i from hi]
    cases i with
    | load op rd rs1 k => exact absurd rfl (hl op rd rs1 k)
    | _ => rfl
  rw [Machine.uartOp,ha]
  change (m.toHart.loaded _).bind _ = none
  rw [hload]
  rfl

theorem steps_compute {i : Instr} (hi : Instr.decode (m.fetch p.ramBase) = some i)
    (hc : ∀ v, i.csrAccess v = none) (hl : ∀ op rd rs1 k, i ≠ .load op rd rs1 k)
    (hs : ∀ e, stores e i = .idle) {rd : BitVec 5} {v : Word}
    (ho : i.exec (m.env (m.socView p x.dev)) = some (compute (m.env (m.socView p x.dev)) rd v))
    (hf : f.Holds p.ramBase m q) {val : Val} (hv : val.Holds q.1 q.2.valid v) :
    Steps p n m x q q {fall := some (f.set rd val)} := by
  obtain ⟨hpc,hregs,hmem,hacc,hret⟩ := socStep_exec hi hc ho rfl
  rw [hs] at hacc hmem
  refine ⟨hret,?_,fun a _ _ => by rw [hmem]; rfl,.inl ⟨_,rfl,hpc,hf.set hv hregs hmem⟩⟩
  rw [uartOp_quiet hi hl hacc]
  exact ⟨rfl,rfl⟩

/-! ### Loads -/

theorem env_rs1 {i : Instr} {r : BitVec 5} (hi : Instr.decode (m.fetch p.ramBase) = some i)
    (hr : rs1Field i.encode = r) : (m.env (m.socView p x.dev)).rs1 = m.regs r := by
  change m.regs (rs1Field (m.fetch p.ramBase)) = _
  rw [← Instr.encode_of_decode hi,hr]

theorem env_rs2 {i : Instr} {r : BitVec 5} (hi : Instr.decode (m.fetch p.ramBase) = some i)
    (hr : rs2Field i.encode = r) : (m.env (m.socView p x.dev)).rs2 = m.regs r := by
  change m.regs (rs2Field (m.fetch p.ramBase)) = _
  rw [← Instr.encode_of_decode hi,hr]

structure Read (p : Mmio.Params) (a v : Word) (q q' : Bool × UartOp.Reader) : Prop where
  follows : Follows (uartRead p a v) q q'
  ready : q.1 = true → q'.1 = true
  valid : q.2.valid = true → q'.2.valid = true
  byte : q.2.byte.isSome = true → q'.2.byte.isSome = true
  status : Bus.InMmio p a → a.toNat % 64 = 4 → Val.Holds q'.1 q'.2.valid v (.status true)
  data : Bus.InMmio p a → a.toNat % 64 = 8 → q.2.valid = true → q'.2.byte.isSome = true

theorem low_bit (v : Word) {k : Nat} (hk : k < 8) :
    (v.extractLsb' 0 8).getLsbD k = v.getLsbD k := by
  rw [BitVec.getLsbD_extractLsb',Nat.zero_add,decide_eq_true hk,Bool.true_and]

variable (q p) in
theorem read_next (a v : Word) : ∃ q', Read p a v q q' := by
  by_cases h4 : Bus.InMmio p a ∧ a.toNat % 64 = 4
  · have hop : uartRead p a v = some (.status (v.extractLsb' 0 8)) := if_pos h4
    refine ⟨(q.1 || v.getLsbD 0,{q.2 with valid := q.2.valid || v.getLsbD 1}),?_⟩
    refine ⟨?_,fun h => ?_,fun h => ?_,fun h => h,fun _ _ => ⟨fun _ h => ?_,fun h => ?_⟩,?_⟩
    · rw [hop,← low_bit v (show 0 < 8 by omega),← low_bit v (show 1 < 8 by omega)]
      exact ⟨rfl,rfl⟩
    · rw [h,Bool.true_or]
    · rw [h,Bool.true_or]
    · rw [h,Bool.or_true]
    · rw [h,Bool.or_true]
    · intro _ h8
      omega
  · by_cases h8 : Bus.InMmio p a ∧ a.toNat % 64 = 8
    · have hop : uartRead p a v = some (.data (v.extractLsb' 0 8)) :=
        (if_neg h4).trans (if_pos h8)
      refine ⟨(q.1,if q.2.valid then {q.2 with byte := some (v.extractLsb' 0 8)} else q.2),?_⟩
      refine ⟨?_,fun h => h,fun h => ?_,fun h => ?_,fun hm h => absurd ⟨hm,h⟩ h4,fun _ _ h => ?_⟩
      · rw [hop]
        exact ⟨rfl,rfl⟩
      · rw [if_pos h]
        exact h
      · split
        · rfl
        · exact h
      · rw [if_pos h]
        rfl
    · have hop : uartRead p a v = none := (if_neg h4).trans (if_neg h8)
      refine ⟨q,?_,id,id,id,fun hm h => absurd ⟨hm,h⟩ h4,fun hm h => absurd ⟨hm,h⟩ h8⟩
      rw [hop]
      exact ⟨rfl,rfl⟩

theorem steps_load {op : LoadOp} {rd rs1 : BitVec 5} {k : BitVec 12}
    (hi : Instr.decode (m.fetch p.ramBase) = some (.load op rd rs1 k))
    (hz : (m.regs rs1+simm k).toNat % op.size = 0) :
    ∃ q', Read p (m.regs rs1+simm k)
        (op.value (m.socView p x.dev).mem (m.regs rs1+simm k)) q q' ∧
      ∀ f' val, Facts.Holds p.ramBase f' m q' →
        Val.Holds q'.1 q'.2.valid (op.value (m.socView p x.dev).mem (m.regs rs1+simm k)) val →
        Steps p n m x q q' {fall := some (f'.set rd val)} := by
  have hrs1 : (m.env (m.socView p x.dev)).rs1 = m.regs rs1 :=
    env_rs1 hi (Instr.rs1Field_iType _ _ _ _ _)
  have ho : (Instr.load op rd rs1 k).exec (m.env (m.socView p x.dev)) =
      some {dest := some (rd,op.value (m.socView p x.dev).mem (m.regs rs1+simm k)),
            addr := some (m.regs rs1+simm k), next := m.pc+4} := by
    rw [Instr.exec,hrs1,access,if_neg (not_not.mpr hz)]
    rfl
  obtain ⟨hpc,hregs,hmem,hacc,hret⟩ := socStep_exec hi (fun _ => rfl) ho rfl
  have hop : m.uartOp p x = uartRead p (m.regs rs1+simm k)
      (op.value (m.socView p x.dev).mem (m.regs rs1+simm k)) := by
    have hload : m.toHart.loaded (m.socView p x.dev) = some (m.regs rs1+simm k,
        op.value (m.socView p x.dev).mem (m.regs rs1+simm k)) := by
      rw [Hart.loaded,show Instr.decode (m.socView p x.dev).insn = _ from hi]
      dsimp only
      rw [hrs1,if_pos hz]
    rw [Machine.uartOp,hacc]
    change (m.toHart.loaded _).bind _ = _
    rw [hload]
    rfl
  obtain ⟨q',hq⟩ := read_next q p (m.regs rs1+simm k)
    (op.value (m.socView p x.dev).mem (m.regs rs1+simm k))
  refine ⟨q',hq,fun f' val hf' hv => ⟨hret,hop ▸ hq.follows,fun a _ _ => by rw [hmem]; rfl,
    .inl ⟨_,rfl,hpc,hf'.set hv hregs hmem⟩⟩⟩

theorem load_wordAt {a : Word} (ha : Aligned a) (hm : Bus.InRam p a) :
    LoadOp.lw.value (m.socView p x.dev).mem a = Machine.wordAt p.ramBase m.mem a := by
  have hz := (aligned_iff_toNat a).mp ha
  rw [Machine.wordAt,LoadOp.value,LoadOp.value,← portWord_word _ a hz,
    ← portWord_word (fun b => m.mem (byteAddr p.ramBase b)) a hz]
  exact (portWord_region _ _ a).trans (if_pos hm)

theorem size_dvd (op : LoadOp) {a : Word} (h : a.toNat % 4 = 0) : a.toNat % op.size = 0 := by
  cases op <;> simp only [LoadOp.size] <;> omega

theorem load_sound {op : LoadOp} {rd rs1 : BitVec 5} {k : BitVec 12}
    (hi : Instr.decode (m.fetch p.ramBase) = some (.load op rd rs1 k))
    (hn : load p.ramBase p.mmioBase aw f op rd rs1 k = some g) (hf : f.Holds p.ramBase m q) :
    ∃ q', Steps p n m x q q' {fall := some g} := by
  have hmono : ∀ {q' v}, Read p (m.regs rs1+simm k) v q q' → f.Holds p.ramBase m q' :=
    fun hq => hf.mono hq.ready hq.valid hq.byte
  -- where nothing is known of the value
  have hany : (m.regs rs1+simm k).toNat % op.size = 0 → g = f.set rd .any →
      ∃ q', Steps p n m x q q' {fall := some g} := by
    intro hz hg
    obtain ⟨q',hq,hs⟩ := steps_load hi hz
    exact ⟨q',hg ▸ hs f .any (hmono hq) trivial⟩
  have hreg := hf.regs rs1
  rw [load] at hn
  cases hv : f.get rs1 with
  | word w =>
    obtain rfl : m.regs rs1 = w := hf.get_word hv
    rw [hv] at hn
    dsimp only at hn
    by_cases hz : (m.regs rs1+simm k).toNat % op.size = 0
    · obtain ⟨q',hq,hs⟩ := steps_load (n := n) (x := x) (q := q) hi hz
      rw [if_neg (not_not.mpr hz)] at hn
      split at hn
      · rename_i hc
        obtain rfl := Option.some.inj hn
        exact ⟨q',hs f _ (hmono hq) (hq.status hc.1 hc.2)⟩
      · split at hn
        · rename_i hc
          obtain rfl := Option.some.inj hn
          have hm := hmono hq
          refine ⟨q',hs _ _ ⟨hm.regs,hm.words,hm.ready,hm.valid,fun hb => ?_⟩ trivial⟩
          rcases (Bool.or_eq_true _ _).mp hb with hb | hb
          · exact hm.byte hb
          · exact hq.data hc.1 hc.2 (hf.valid hb)
        · split at hn
          · rename_i hc
            obtain rfl := Option.some.inj hn
            obtain ⟨hram,rfl⟩ := hc
            have ha := (aligned_iff_toNat _).mpr hz
            refine ⟨q',hs f _ (hmono hq) ?_⟩
            rw [load_wordAt ha hram]
            exact (hmono hq).get_stored ha
          · exact hany hz (Option.some.inj hn).symm
    · rw [if_pos hz] at hn
      cases hn
  | aligned =>
    rw [hv] at hn hreg
    dsimp only at hn
    split at hn
    · rename_i hk
      have hr : (m.regs rs1).toNat % 4 = 0 := hreg
      refine hany (size_dvd op ?_) (Option.some.inj hn).symm
      rw [BitVec.toNat_add]
      omega
    · cases hn
  | _ =>
    rw [hv] at hn
    dsimp only at hn
    split at hn
    · rename_i hsize
      exact hany (by rw [hsize,Nat.mod_one]) (Option.some.inj hn).symm
    · cases hn

/-! ### Stores -/

theorem store_sound (hb : p.ramBase.toNat % 4 = 0) {op : StoreOp} {rs1 rs2 : BitVec 5}
    {k : BitVec 12} (hi : Instr.decode (m.fetch p.ramBase) = some (.store op rs1 rs2 k))
    (hn : store p.ramBase p.mmioBase aw n f op rs1 rs2 k = some g) (hf : f.Holds p.ramBase m q) :
    ∃ q', Steps p n m x q q' {fall := some g} := by
  rw [store] at hn
  cases hv : f.get rs1 with
  | word w =>
    obtain rfl : m.regs rs1 = w := hf.get_word hv
    rw [hv] at hn
    dsimp only at hn
    by_cases hz : (m.regs rs1+simm k).toNat % op.size = 0
    · rw [if_neg (not_not.mpr hz)] at hn
      generalize ha : m.regs rs1+simm k = a at hn hz
      have hrs1 : (m.env (m.socView p x.dev)).rs1+simm k = a := by
        rw [env_rs1 hi (rs1Field_rType _ _ _ _ _ _),ha]
      have hrs2 : (m.env (m.socView p x.dev)).rs2 = m.regs rs2 :=
        env_rs2 hi (rs2Field_rType _ _ _ _ _ _)
      have ho : (Instr.store op rs1 rs2 k).exec (m.env (m.socView p x.dev)) =
          some {addr := some a, next := m.pc+4} := by
        rw [Instr.exec,hrs1,access,if_neg (not_not.mpr hz)]
        rfl
      have hst : stores (m.env (m.socView p x.dev)) (.store op rs1 rs2 k) =
          .store op a (m.regs rs2) := by
        rw [stores,hrs1,hrs2]
      obtain ⟨hpc,hregs,hmem,hacc,hret⟩ := socStep_exec hi (fun _ => rfl) ho rfl
      rw [hst] at hacc hmem
      have hquiet : ¬Bus.InMmio p a → m.uartOp p x = none := by
        intro hm
        rw [Machine.uartOp,hacc,Access.toDevice,if_neg hm]
        change (m.toHart.loaded _).bind _ = none
        rw [Hart.loaded,show Instr.decode (m.socView p x.dev).insn = _ from hi]
        rfl
      have hop : Bus.InMmio p a → m.uartOp p x = uartWrite (a.toNat % 64/4,m.regs rs2) := by
        intro hm
        rw [Machine.uartOp,hacc,Access.toDevice,if_pos hm]
      have hout : ¬Bus.InRam p a → (m.socStep p x).mem = m.mem := by
        intro hr
        rw [hmem,Access.toRam,if_neg hr]
        rfl
      -- outside the memory only the order of the registers is at stake
      have hfall : ∀ q', ¬Bus.InRam p a → Follows (m.uartOp p x) q q' →
          g.Holds p.ramBase m q' → ∃ q', Steps p n m x q q' {fall := some g} :=
        fun q' hr ho hg => ⟨q',hret,ho,fun _ _ _ => by rw [hout hr],
          .inl ⟨g,rfl,hpc,hg.same hregs (hout hr)⟩⟩
      split at hn
      · rename_i hm
        have hr := Bus.not_both (p := p) hm
        have hw := hop hm
        rw [uartWrite] at hw
        split at hn
        · rename_i h0
          rw [if_pos h0] at hw
          split at hn
          · rename_i hready
            obtain rfl := Option.some.inj hn
            refine hfall (false,q.2) hr ?_ hf.sent
            rw [hw]
            refine ⟨?_,rfl⟩
            change UartOp.txNext q.1 _ >>= _ = _
            rw [hf.ready hready]
            rfl
          · cases hn
        · rename_i h0
          rw [if_neg h0] at hw
          split at hn
          · rename_i h2
            rw [if_pos h2] at hw
            split at hn
            · rename_i hbyte
              obtain rfl := Option.some.inj hn
              obtain ⟨b,hb⟩ := Option.isSome_iff_exists.mp (hf.byte hbyte)
              refine hfall (q.1,{received := q.2.received ++ [b]}) hr ?_ (hf.taken _)
              rw [hw]
              refine ⟨rfl,?_⟩
              change UartOp.rxNext q.2 .take >>= _ = _
              rw [UartOp.rxNext,hb]
              rfl
            · cases hn
          · rename_i h2
            rw [if_neg h2] at hw
            obtain rfl := Option.some.inj hn
            refine hfall q hr ?_ hf
            rw [hw]
            exact ⟨rfl,rfl⟩
      · rename_i hm
        have hkeep : Follows (m.uartOp p x) q q := by
          rw [hquiet hm]
          exact ⟨rfl,rfl⟩
        split at hn
        · rename_i hr
          have hstored : (m.socStep p x).mem =
              m.memNext p.ramBase (.store op a (m.regs rs2)) := by
            rw [hmem,Access.toRam,if_pos (show Bus.InRam p a from hr)]
          split at hn
          · rename_i hlow
            obtain rfl := Option.some.inj hn
            refine ⟨q,hret,hkeep,fun b hba hbn => ?_,.inl ⟨_,rfl,hpc,?_⟩⟩
            · rw [hstored]
              exact wordAt_memNext hb hba hz _ (by omega)
            · exact hf.put hb hz (hf.regs rs2) hregs hstored
          · cases hn
        · rename_i hr
          obtain rfl := Option.some.inj hn
          exact hfall q hr hkeep hf
    · rw [if_pos hz] at hn
      cases hn
  | _ =>
    rw [hv] at hn
    cases hn

/-! ### Jumps and branches -/

theorem steps_goes {i : Instr} {o : Outcome} (hi : Instr.decode (m.fetch p.ramBase) = some i)
    (hc : ∀ v, i.csrAccess v = none) (hl : ∀ op rd rs1 k, i ≠ .load op rd rs1 k)
    (hs : ∀ e, stores e i = .idle) (ho : i.exec (m.env (m.socView p x.dev)) = some o)
    (ht : o.trap = none) (hnext : ∀ m' : Machine aw, m'.pc = o.next →
      m'.regs = m.regsNext o.dest → m'.mem = m.mem →
      (∃ g, s.fall = some g ∧ m'.pc = m.pc+4 ∧ g.Holds p.ramBase m' q) ∨
        ∃ j, s.jump = some j ∧ m'.pc = j.1 ∧ j.2.Holds p.ramBase m' q) :
    Steps p n m x q q s := by
  obtain ⟨hpc,hregs,hmem,hacc,hret⟩ := socStep_exec hi hc ho ht
  rw [hs] at hacc hmem
  refine ⟨hret,?_,fun a _ _ => by rw [hmem]; rfl,hnext _ hpc hregs hmem⟩
  rw [uartOp_quiet hi hl hacc]
  exact ⟨rfl,rfl⟩

theorem jal_sound {rd : BitVec 5} {k : BitVec 20}
    (hi : Instr.decode (m.fetch p.ramBase) = some (.jal rd k))
    (ht : fetchMisaligned (m.pc+offset k) = false) (hf : f.Holds p.ramBase m q) :
    Steps p n m x q q {jump := some (m.pc+offset k,f.set rd (.word (m.pc+4)))} := by
  have ho : (Instr.jal rd k).exec (m.env (m.socView p x.dev)) =
      some {dest := some (rd,m.pc+4), next := m.pc+offset k} := by
    change some (transfer _ (m.pc+offset k) _) = _
    rw [transfer,if_neg (by simp [ht])]
    rfl
  exact steps_goes hi (fun _ => rfl) (fun _ _ _ _ h => by cases h) (fun _ => rfl) ho rfl
    fun m' hpc hregs hmem => .inr ⟨_,rfl,hpc,hf.set rfl hregs hmem⟩

theorem steps_branch {c : Cond} {rs1 rs2 : BitVec 5} {k : BitVec 12}
    (hi : Instr.decode (m.fetch p.ramBase) = some (.branch c rs1 rs2 k))
    (ht : fetchMisaligned (m.pc+offset k) = false)
    (hgo : c.holds (m.regs rs1) (m.regs rs2) = true →
      ∃ g, s.jump = some (m.pc+offset k,g) ∧ g.Holds p.ramBase m q)
    (hstay : c.holds (m.regs rs1) (m.regs rs2) = false →
      ∃ g, s.fall = some g ∧ g.Holds p.ramBase m q) : Steps p n m x q q s := by
  have hrs1 : (m.env (m.socView p x.dev)).rs1 = m.regs rs1 :=
    env_rs1 hi (rs1Field_rType _ _ _ _ _ _)
  have hrs2 : (m.env (m.socView p x.dev)).rs2 = m.regs rs2 :=
    env_rs2 hi (rs2Field_rType _ _ _ _ _ _)
  cases hc : c.holds (m.regs rs1) (m.regs rs2) with
  | true =>
    obtain ⟨g,hj,hg⟩ := hgo hc
    have ho : (Instr.branch c rs1 rs2 k).exec (m.env (m.socView p x.dev)) =
        some {next := m.pc+offset k} := by
      rw [Instr.exec,hrs1,hrs2,if_pos hc]
      change some (transfer _ (m.pc+offset k) _) = _
      rw [transfer,if_neg (by simp [ht])]
    exact steps_goes hi (fun _ => rfl) (fun _ _ _ _ h => by cases h) (fun _ => rfl) ho rfl
      fun m' hpc hregs hmem => .inr ⟨_,hj,hpc,hg.same hregs hmem⟩
  | false =>
    obtain ⟨g,hj,hg⟩ := hstay hc
    have ho : (Instr.branch c rs1 rs2 k).exec (m.env (m.socView p x.dev)) =
        some {next := m.pc+4} := by
      rw [Instr.exec,hrs1,hrs2,if_neg (by simp [hc])]
      rfl
    exact steps_goes hi (fun _ => rfl) (fun _ _ _ _ h => by cases h) (fun _ => rfl) ho rfl
      fun m' hpc hregs hmem => .inl ⟨_,hj,hpc,hg.same hregs hmem⟩

/-! ### Any instruction -/

theorem csr_sound {addr : BitVec 12} {rd : BitVec 5}
    (hi : Instr.decode (m.fetch p.ramBase) = some (.csr .csrrs addr rd 0))
    (hl : ¬CsrIllegal ⟨addr,.rs,0,false⟩) (hf : f.Holds p.ramBase m q) :
    Steps p n m x q q {fall := some (f.set rd .any)} := by
  have h0 : m.regs 0 = 0 := hf.get_word f.get_zero
  obtain ⟨hs,hst,he⟩ := Hart.step_csr (h := m.toHart) (w := m.socView p x.dev) x.vol
    (Instr.encode_of_decode hi).symm (a := ⟨addr,.rs,0,false⟩) (by rw [h0]; rfl) hl
  have hacc : m.socAccess p x = .idle := hst
  have hmem : (m.socStep p x).mem = m.mem := by
    rw [Machine.socStep,hacc]
    rfl
  have hpc : (m.socStep p x).pc = m.pc+4 := congrArg Hart.pc hs
  have hregs : (m.socStep p x).regs = _ := congrArg Hart.regs hs
  refine ⟨congrArg Event.trap he,?_,fun a _ _ => by rw [hmem],
    .inl ⟨_,rfl,hpc,hf.set (v := .any) trivial hregs hmem⟩⟩
  rw [uartOp_quiet hi (fun _ _ _ _ h => by cases h) hacc]
  exact ⟨rfl,rfl⟩

theorem next_sound (hb : p.ramBase.toNat % 4 = 0) {i : Instr}
    (hi : Instr.decode (m.fetch p.ramBase) = some i)
    (hn : next p.ramBase p.mmioBase aw n f m.pc i = some s) (hf : f.Holds p.ramBase m q) :
    ∃ q', Steps p n m x q q' s := by
  cases i with
  | lui rd k =>
    obtain rfl := Option.some.inj hn
    exact ⟨q,steps_compute hi (fun _ => rfl) (fun _ _ _ _ h => by cases h) (fun _ => rfl) rfl hf rfl⟩
  | auipc rd k =>
    obtain rfl := Option.some.inj hn
    exact ⟨q,steps_compute hi (fun _ => rfl) (fun _ _ _ _ h => by cases h) (fun _ => rfl) rfl hf rfl⟩
  | opImm op rd rs1 k =>
    obtain rfl := Option.some.inj hn
    refine ⟨q,steps_compute hi (fun _ => rfl) (fun _ _ _ _ h => by cases h) (fun _ => rfl) rfl hf ?_⟩
    rw [env_rs1 hi (Instr.rs1Field_iType _ _ _ _ _)]
    exact (hf.regs rs1).imm op k
  | shiftImm op rd rs1 sh =>
    obtain rfl := Option.some.inj hn
    exact ⟨q,steps_compute hi (fun _ => rfl) (fun _ _ _ _ h => by cases h) (fun _ => rfl) rfl hf
      trivial⟩
  | reg op rd rs1 rs2 =>
    obtain rfl := Option.some.inj hn
    exact ⟨q,steps_compute hi (fun _ => rfl) (fun _ _ _ _ h => by cases h) (fun _ => rfl) rfl hf
      trivial⟩
  | jal rd k =>
    rw [next] at hn
    split at hn
    · cases hn
    · rename_i ht
      obtain rfl := Option.some.inj hn
      exact ⟨q,jal_sound hi (Bool.eq_false_iff.mpr ht) hf⟩
  | branch c rs1 rs2 k =>
    rw [next] at hn
    split at hn
    · cases hn
    · rename_i ht
      have ht := Bool.eq_false_iff.mpr ht
      split at hn
      · rename_i v w hv hw
        obtain rfl := hf.get_word hv
        obtain rfl := hf.get_word hw
        split at hn
        · rename_i hc
          obtain rfl := Option.some.inj hn
          exact ⟨q,steps_branch hi ht (fun _ => ⟨f,rfl,hf⟩) fun h => by simp [h] at hc⟩
        · rename_i hc
          obtain rfl := Option.some.inj hn
          exact ⟨q,steps_branch hi ht (fun h => absurd h hc) fun _ => ⟨f,rfl,hf⟩⟩
      · obtain rfl := Option.some.inj hn
        refine ⟨q,steps_branch hi ht (fun _ => ⟨f,rfl,hf⟩) fun hc => ⟨_,rfl,?_⟩⟩
        split
        · rename_i hz
          obtain ⟨rfl,rfl⟩ := hz
          refine hf.nonzero (hf.regs rs1) fun h0 => ?_
          have hx0 : m.regs 0 = 0 := hf.get_word f.get_zero
          rw [h0,hx0] at hc
          cases hc
        · exact hf
  | load op rd rs1 k =>
    obtain ⟨g,hg,rfl⟩ := Option.map_eq_some_iff.mp hn
    exact load_sound hi hg hf
  | store op rs1 rs2 k =>
    obtain ⟨g,hg,rfl⟩ := Option.map_eq_some_iff.mp hn
    exact store_sound hb hi hg hf
  | csr op addr rd src =>
    rw [next] at hn
    split at hn
    · rename_i hc
      obtain ⟨rfl,rfl,hl⟩ := hc
      obtain rfl := Option.some.inj hn
      exact ⟨q,csr_sound hi hl hf⟩
    · cases hn
  | _ => cases hn

end step

/-! ### The code -/

section code

variable {p : Mmio.Params} {n : Nat} {marks : List (Nat × Facts)} {k : Nat} {cur : Option Facts}
  {ws : List Word}

theorem passes_cons {w : Word} (h : passes ram mmio aw n marks k cur (w :: ws) = true) :
    (∀ g, cur = some g → ∀ f, mark marks k = some f → g.le f = true) ∧
    (∃ cur', passes ram mmio aw n marks (k+1) cur' ws = true) ∧
    ∀ f, (mark marks k).or cur = some f → ∃ i s, Instr.decode w = some i ∧
      next ram mmio aw n f (place ram k) i = some s ∧
      (∀ j, s.jump = some j → marked ram n marks j = true) ∧
      passes ram mmio aw n marks (k+1) s.fall ws = true := by
  rw [passes,Bool.and_eq_true] at h
  obtain ⟨hle,h⟩ := h
  refine ⟨fun g hg f hf => ?_,?_⟩
  · rw [hg,hf] at hle
    exact hle
  cases hk : (mark marks k).or cur with
  | none =>
    rw [hk] at h
    refine ⟨⟨none,h⟩,fun f hf => ?_⟩
    cases hf
  | some f =>
    rw [hk] at h
    dsimp only at h
    split at h
    · cases h
    · rename_i s hs
      obtain ⟨i,hi,hs⟩ := Option.bind_eq_some_iff.mp hs
      obtain ⟨hj,h⟩ := (Bool.and_eq_true _ _).mp h
      refine ⟨⟨s.fall,h⟩,fun f' hf' => ⟨i,s,hi,Option.some.inj hf' ▸ hs,fun j hsj => ?_,h⟩⟩
      rw [hsj] at hj
      exact hj

theorem passes_drop (h : passes ram mmio aw n marks k cur ws = true) (j : Nat) :
    ∃ cur', passes ram mmio aw n marks (k+j) cur' (ws.drop j) = true := by
  induction ws generalizing k cur j with
  | nil => exact ⟨none,by rw [List.drop_nil]; rfl⟩
  | cons w ws ih =>
    cases j with
    | zero => exact ⟨cur,h⟩
    | succ j =>
      obtain ⟨cur',h'⟩ := (passes_cons h).2.1
      obtain ⟨cur'',h''⟩ := ih h' j
      exact ⟨cur'',by rw [Nat.add_right_comm] at h''; exact h''⟩

theorem passes_enter {m : Machine aw} (h : passes ram mmio aw n marks k (some g) ws = true)
    (hg : g.Holds ram m q) :
    ws ≠ [] ∧ ∃ f, (mark marks k).or (some g) = some f ∧ f.Holds ram m q := by
  cases ws with
  | nil => cases h
  | cons w ws =>
    refine ⟨List.cons_ne_nil _ _,?_⟩
    cases hk : mark marks k with
    | none => exact ⟨g,rfl,hg⟩
    | some f => exact ⟨f,rfl,hg.le ((passes_cons h).1 g rfl f hk)⟩

/-! ### Runs -/

/-- The code is in memory, and what the checker knows at the program counter holds. -/
structure Sound (p : Mmio.Params) (marks : List (Nat × Facts)) (code : List Word) (m : Machine aw)
    (q : Bool × UartOp.Reader) : Prop where
  words : ∀ a, Aligned a → index p.ramBase aw a < code.length →
    code[index p.ramBase aw a]? = some (Machine.wordAt p.ramBase m.mem a)
  here : ∃ k cur f, k < code.length ∧
    passes p.ramBase p.mmioBase aw code.length marks k cur (code.drop k) = true ∧
    (mark marks k).or cur = some f ∧ m.pc = place p.ramBase k ∧ f.Holds p.ramBase m q

/-- Every word of the memory has a place, and the code is no larger. -/
structure Fits (p : Mmio.Params) (aw : Nat) (code : List Word) : Prop where
  base : p.ramBase.toNat % 4 = 0
  width : aw ≤ 30
  length : code.length ≤ 2^aw

variable {code : List Word}

theorem Fits.place (h : Fits p aw code) {k : Nat} (hk : k < code.length) :
    Aligned (place p.ramBase k) ∧ index p.ramBase aw (place p.ramBase k) = k := by
  have hlen := h.length
  have hb := h.base
  have hpow : 2^aw ≤ 2^30 := Nat.pow_le_pow_right (by omega) h.width
  have h4 : (BitVec.ofNat 32 (4*k)).toNat = 4*k := by
    rw [BitVec.toNat_ofNat]
    omega
  constructor
  · rw [aligned_iff_toNat,UartCheck.place,BitVec.toNat_add,h4]
    omega
  · rw [index,Ram.wordAddr,UartCheck.place,BitVec.add_comm,BitVec.add_sub_cancel,
      Bits.extract_toNat,h4]
    rw [show 4*k/2^2 = k by omega,Nat.mod_eq_of_lt (by omega)]

theorem place_succ (k : Nat) : place ram k+4 = place ram (k+1) := by
  rw [place,place,Nat.mul_succ,BitVec.ofNat_add,BitVec.add_assoc]
  rfl

theorem marked_place {j : Word × Facts} (h : marked ram n marks j = true) :
    ∃ k f, k < n ∧ j.1 = place ram k ∧ mark marks k = some f ∧ j.2.le f = true := by
  simp only [marked,Bool.and_eq_true,beq_iff_eq,decide_eq_true_eq,Option.any_eq_true] at h
  obtain ⟨⟨hz,hk⟩,f,hf,hle⟩ := h
  refine ⟨_,f,hk,?_,hf,hle⟩
  rw [place,show 4*((j.1-ram).toNat/4) = (j.1-ram).toNat by omega,BitVec.ofNat_toNat,
    BitVec.setWidth_eq,BitVec.add_comm,BitVec.sub_add_cancel]

variable {m : Machine aw}

theorem Sound.step (hfit : Fits p aw code)
    (hall : passes p.ramBase p.mmioBase aw code.length marks 0 none code = true)
    (h : Sound p marks code m q) (x : SocIn) : ∃ q', Follows (m.uartOp p x) q q' ∧
      (m.socEvent p x).trap = none ∧ Sound p marks code (m.socStep p x) q' := by
  obtain ⟨hcode,k,cur,f,hk,hpass,hknown,hpc,hf⟩ := h
  obtain ⟨hal,hindex⟩ := hfit.place hk
  rw [← hpc] at hal hindex
  have hfetch : code[k]? = some (m.fetch p.ramBase) := by
    have hw := hcode m.pc hal (by rw [hindex]; exact hk)
    rwa [hindex] at hw
  have hdrop : code.drop k = m.fetch p.ramBase :: code.drop (k+1) := by
    obtain ⟨_,hget⟩ := List.getElem?_eq_some_iff.mp hfetch
    rw [List.drop_eq_getElem_cons hk,hget]
  rw [hdrop] at hpass
  obtain ⟨i,s,hi,hs,hjump,hrest⟩ := (passes_cons hpass).2.2 f hknown
  rw [← hpc] at hs
  obtain ⟨q',hst⟩ := next_sound (x := x) hfit.base hi hs hf
  refine ⟨q',hst.order,hst.retired,fun a ha hlt => ?_,?_⟩
  · rw [hst.code a ha hlt]
    exact hcode a ha hlt
  rcases hst.next with ⟨g,hfall,hpc',hg⟩ | ⟨j,hj,hpc',hg⟩
  · rw [hfall] at hrest
    obtain ⟨hne,f',hf',hholds⟩ := passes_enter hrest hg
    have hk' : k+1 < code.length := by
      by_contra hn
      exact hne (List.drop_eq_nil_of_le (by omega))
    exact ⟨k+1,some g,f',hk',hrest,hf',by rw [hpc',hpc,place_succ],hholds⟩
  · obtain ⟨k',f',hk',hplace,hmark,hle⟩ := marked_place (hjump j hj)
    obtain ⟨cur',hcur⟩ := passes_drop hall k'
    rw [Nat.zero_add] at hcur
    exact ⟨k',cur',f',hk',hcur,by rw [hmark]; rfl,hpc'.trans hplace,hg.le hle⟩

theorem Sound.run (hfit : Fits p aw code)
    (hall : passes p.ramBase p.mmioBase aw code.length marks 0 none code = true)
    (h : Sound p marks code m q) (l : List SocIn) : ∃ q', Sound p marks code (m.socRun p l) q' := by
  induction l generalizing m q with
  | nil => exact ⟨q,h⟩
  | cons x l ih =>
    obtain ⟨q',_,_,hs⟩ := h.step hfit hall x
    exact ih hs

theorem sound_reset (hfit : Fits p aw code)
    (hall : passes p.ramBase p.mmioBase aw code.length marks 0 none code = true)
    (hmark : mark marks 0 = some {}) (hne : code ≠ []) {mem : BitVec aw → Word}
    (hmem : ∀ k, (h : k < code.length) → mem (BitVec.ofNat aw k) = code[k]) :
    Sound p marks code (Machine.reset p.ramBase (byteAt mem)) (false,{}) := by
  constructor
  · intro a ha hlt
    have hw := fetch_word (m := {Machine.reset p.ramBase (byteAt mem) with pc := a}) hfit.base ha rfl
    rw [Machine.fetch_eq] at hw
    rw [List.getElem?_eq_getElem hlt,← hmem _ hlt]
    refine congrArg some (Eq.trans ?_ hw.symm)
    rw [index,BitVec.ofNat_toNat,BitVec.setWidth_eq]
  · refine ⟨0,none,{},List.length_pos_of_ne_nil hne,hall,by rw [hmark]; rfl,?_,?_⟩
    · change p.ramBase = p.ramBase+BitVec.ofNat 32 0
      rw [BitVec.add_zero]
    · refine ⟨fun r => ?_,fun x hx => ?_,fun h => ?_,fun h => ?_,fun h => ?_⟩
      · rw [Facts.get]
        split
        · rfl
        · trivial
      · cases hx
      · cases h
      · cases h
      · cases h

end code

end Rvntt.UartCheck
