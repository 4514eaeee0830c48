import Rvntt.CommitLog
import Rvntt.SocHealthy
set_option autoImplicit false

/-!
Reading back what `rvntt_trace` and `render` write, and what the differ finds.
-/

namespace Rvntt

open Text

namespace Cosim

open SocUart (isSpace Clean)

/-! ### Fields -/

theorem head_text (l : Line) : head ("core   0: 3 0x".toList ++ l) = some l := rfl

theorem name_text (n : Nat) (l : Line) : ('x'::decimal n).rightpad 3 ' ' ++ (" 0x".toList ++ l) =
    ['x'] ++ (decimal n ++ ((List.replicate (2-(decimal n).length) ' ' ++ [' ']) ++
      (['0','x'] ++ l))) := by
  rw [List.rightpad,List.length_cons,show 3-((decimal n).length+1) = 2-(decimal n).length by omega]
  simp

theorem isSpace_pad {k : Nat} : ∀ c ∈ List.replicate k ' ' ++ [' '], isSpace c = true := by
  intro c h
  rcases List.mem_append.mp h with h | h
  · rw [List.eq_of_mem_replicate h]
    rfl
  · rw [List.mem_singleton.mp h]
    rfl

theorem many_pad (k : Nat) (l : Line) :
    many isSpace ((List.replicate k ' ' ++ [' ']) ++ (['0','x'] ++ l)) =
      some (List.replicate k ' ' ++ [' '],['0','x'] ++ l) :=
  many_append isSpace_pad (by simp) (stops_cons.mpr rfl)

theorem stops_pad {p : Char → Bool} (hp : p ' ' = false) (k : Nat) (l : Line) :
    Stops p ((List.replicate k ' ' ++ [' ']) ++ l) := by
  cases k with
  | zero => exact stops_cons.mpr hp
  | succ k => exact stops_cons.mpr hp

theorem rtlWrite_render (w : Nat × Nat) (h : w.2 < 16^8) (l : Line) :
    rtlWrite (renderWrite w ++ l) = some (w,l) := by
  have ht : renderWrite w ++ l = [' '] ++ (['x'] ++ (decimal w.1 ++
      ((List.replicate (2-(decimal w.1).length) ' ' ++ [' ']) ++
        (['0','x'] ++ (hex 8 w.2 ++ l))))) := by
    rw [renderWrite,List.cons_append,List.append_assoc,List.append_assoc,name_text]
    rfl
  have h1 : ∀ m : Line, many isSpace ([' '] ++ (['x'] ++ m)) = some ([' '],['x'] ++ m) := fun m =>
    many_append (by simp [show isSpace ' ' = true from rfl]) (by simp) (stops_cons.mpr rfl)
  rw [rtlWrite,ht,h1]
  simp only [Option.bind_eq_bind,Option.bind_some,lit_append,
    many_append isDigit_decimal (decimal_ne_nil _) (stops_pad (p := Char.isDigit) rfl _ _)]
  simp only [many_pad,Option.bind_some,lit_append,
    exactly_append isHex_hex (length_hex (by decide) h),ofDecimal_decimal,ofHex_hex]
  rfl

theorem writeAt_render (w : Nat × Nat) {l : Line} (hl : Stops isHex l) :
    writeAt (('x'::decimal w.1).rightpad 3 ' ' ++ (" 0x".toList ++ (hex 8 w.2 ++ l))) =
      some (w,l) := by
  rw [writeAt,name_text,lit_append]
  simp only [Option.bind_eq_bind,Option.bind_some,
    many_append isDigit_decimal (decimal_ne_nil _) (stops_pad (p := Char.isDigit) rfl _ _)]
  simp only [many_pad,Option.bind_some,lit_append,many_append isHex_hex (hex_ne_nil _ _) hl,
    ofDecimal_decimal,ofHex_hex]
  rfl

/-! ### Spike's lines -/

/-- What Spike adds behind the register: `mem 0x80001000 0x00000005`, or
`c773_mtvec 0x80000040`. No such word starts with an `x`. -/
def Annotation (t : Line) : Prop := (∀ c ∈ t, isWord c = true) ∧ ∃ c ∈ t.head?, c ≠ 'x'

def spikeLine (r : Record) (anns : List Line) : Line :=
  render r ++ anns.flatMap fun t => ' '::t

theorem writeAt_other {c : Char} (h : c ≠ 'x') (l : Line) : writeAt (c::l) = none := by
  rw [writeAt,lit,if_neg (Ne.symm h)]
  rfl

theorem findWrites_other {c : Char} (h : c ≠ 'x') (n : Nat) (w : Bool) (l : Line) :
    findWrites (n+1) w (c::l) = findWrites n (isWord c) l := by
  rw [findWrites,writeAt_other h,ite_self]

theorem findWrites_word {t : Line} (h : ∀ c ∈ t, isWord c = true) (n : Nat) (l : Line) :
    findWrites (n+t.length) true (t ++ l) = findWrites n true l := by
  induction t with
  | nil => rfl
  | cons c t ih =>
    rw [List.length_cons,← Nat.add_assoc,List.cons_append,findWrites,if_pos rfl,
      h c List.mem_cons_self]
    exact ih fun d hd => h d (List.mem_cons_of_mem _ hd)

theorem findWrites_annotation {t : Line} (h : Annotation t) (n : Nat) (w : Bool) (l : Line) :
    findWrites (n+t.length+1) w (' '::(t ++ l)) = findWrites n true l := by
  obtain ⟨hw,c,hc,hx⟩ := h
  cases t with
  | nil => cases hc
  | cons d t =>
    obtain rfl : d = c := by simpa using hc
    rw [findWrites_other (by decide),List.length_cons,← Nat.add_assoc,List.cons_append,
      findWrites_other hx,hw d List.mem_cons_self]
    exact findWrites_word (fun e he => hw e (List.mem_cons_of_mem _ he)) n l

theorem findWrites_annotations {anns : List Line} (h : ∀ t ∈ anns, Annotation t) {n : Nat}
    (w : Bool) (hn : (anns.flatMap fun t => ' '::t).length ≤ n) :
    findWrites n w (anns.flatMap fun t => ' '::t) = [] := by
  induction anns generalizing n w with
  | nil => cases n <;> rfl
  | cons t anns ih =>
    rw [List.flatMap_cons,List.cons_append,List.length_cons,List.length_append] at hn
    obtain ⟨k,rfl⟩ := Nat.exists_eq_add_of_le' (show t.length+1 ≤ n by omega)
    rw [List.flatMap_cons,List.cons_append,← Nat.add_assoc,
      findWrites_annotation (h t List.mem_cons_self)]
    exact ih (fun u hu => h u (List.mem_cons_of_mem _ hu)) true (by omega)

theorem stops_tail (ws : List (Nat × Nat)) (anns : List Line) :
    Stops isHex (ws.flatMap renderWrite ++ anns.flatMap fun t => ' '::t) := by
  cases ws with
  | cons w ws => exact stops_cons.mpr rfl
  | nil =>
    cases anns with
    | nil => exact stops_nil
    | cons t anns => exact stops_cons.mpr rfl

theorem findWrites_tail {anns : List Line} (h : ∀ t ∈ anns, Annotation t) (ws : List (Nat × Nat))
    {n : Nat} (w : Bool)
    (hn : (ws.flatMap renderWrite ++ anns.flatMap fun t => ' '::t).length ≤ n) :
    findWrites n w (ws.flatMap renderWrite ++ anns.flatMap fun t => ' '::t) = ws := by
  induction ws generalizing n w with
  | nil => exact findWrites_annotations h w hn
  | cons v ws ih =>
    rw [List.flatMap_cons,List.append_assoc,renderWrite,List.cons_append,List.append_assoc,
      List.append_assoc] at hn ⊢
    have hx : 2 ≤ (('x'::decimal v.1).rightpad 3 ' ').length := by
      rw [List.rightpad,List.length_append,List.length_cons]
      have := List.length_pos_iff.mpr (decimal_ne_nil v.1)
      omega
    rw [List.length_cons,List.length_append,List.length_append,List.length_append] at hn
    obtain ⟨k,rfl⟩ := Nat.exists_eq_add_of_le' (show 2 ≤ n by omega)
    rw [findWrites_other (by decide),show isWord ' ' = false from rfl]
    have hat := writeAt_render v (stops_tail ws anns)
    generalize ('x'::decimal v.1).rightpad 3 ' ' = name at hat hn hx ⊢
    cases name with
    | nil => cases hx
    | cons c name =>
      rw [List.cons_append] at hat ⊢
      rw [List.length_cons] at hn
      rw [findWrites,if_neg Bool.false_ne_true,hat]
      exact congrArg (v::·) (ih true (by omega))

theorem render_append (r : Record) (l : Line) : render r ++ l = "core   0: 3 0x".toList ++
    (hex 8 r.pc ++ ([' '] ++ (['(','0','x'] ++ (hex 8 r.insn ++ ([')'] ++
      (r.writes.flatMap renderWrite ++ l)))))) := by
  have h1 : " (0x".toList = [' '] ++ ['(','0','x'] := by decide
  have h2 : ")".toList = [')'] := by decide
  unfold render
  simp only [h1,h2,List.append_assoc]

theorem many_space (l : Line) : many isSpace ([' '] ++ (['(','0','x'] ++ l)) =
    some ([' '],['(','0','x'] ++ l) :=
  many_append (by simp [show isSpace ' ' = true from rfl]) (by simp) (stops_cons.mpr rfl)

/-- Whatever Spike adds to a line, its parser reads the record back. -/
theorem commitLine_spikeLine (r : Record) {anns : List Line} (h : ∀ t ∈ anns, Annotation t) :
    commitLine (spikeLine r anns) = some r := by
  have hp : ∀ l : Line, many isHex (hex 8 r.pc ++ ([' '] ++ l)) = some (hex 8 r.pc,[' '] ++ l) :=
    fun l => many_append isHex_hex (hex_ne_nil _ _) (stops_cons.mpr rfl)
  have hi : ∀ l : Line, many isHex (hex 8 r.insn ++ ([')'] ++ l)) =
      some (hex 8 r.insn,[')'] ++ l) :=
    fun l => many_append isHex_hex (hex_ne_nil _ _) (stops_cons.mpr rfl)
  rw [commitLine,spikeLine,render_append,head_text]
  simp only [hp,many_space,hi,lit_append,Option.bind_eq_bind,Option.bind_some,ofHex_hex,
    findWrites_tail h r.writes false (Nat.le_refl _)]
  rfl

theorem commitLine_render (r : Record) : commitLine (render r) = some r := by
  have h := @commitLine_spikeLine r [] fun _ h => nomatch h
  rwa [spikeLine,List.flatMap_nil,List.append_nil] at h

theorem render_injective : Function.Injective render := fun r s h => by
  have hr := commitLine_render r
  rw [h,commitLine_render] at hr
  exact (Option.some.inj hr).symm

/-! ### The monitor's lines -/

def record (c : Core.Commit) : Record where
  pc := c.pc.toNat
  insn := c.insn.toNat
  writes := c.write.toList.map fun w => (w.1.toNat,w.2.toNat)

theorem rdName_eq : ∀ r : BitVec 5, Trace.rdName r = ('x'::decimal r.toNat).rightpad 3 ' ' := by
  decide

theorem line_eq (c : Core.Commit) : Trace.line c = render (record c) := by
  have h1 : ") ".toList = [')'] ++ [' '] := by decide
  have h2 : ")".toList = [')'] := by decide
  unfold Trace.line render record
  cases c.write with
  | none => simp only [Option.toList_none,List.map_nil,List.flatMap_nil,List.append_nil]
  | some w =>
    simp only [Option.toList_some,List.map_cons,List.map_nil,List.flatMap_cons,List.flatMap_nil,
      List.append_nil,renderWrite,rdName_eq,h1,h2,List.cons_append,List.nil_append]

theorem rtlLine_line (c : Core.Commit) : rtlLine (Trace.line c) = some (record c) := by
  have hw : ∀ v : Word, v.toNat < 16^8 := fun v => v.isLt
  have hspace : (([] : Line).all isSpace) = true := rfl
  have h := render_append (record c) []
  rw [List.append_nil] at h
  rw [line_eq,rtlLine,h,head_text]
  simp only [record,exactly_append isHex_hex (length_hex (by decide) (hw c.pc)),many_space,
    lit_append,exactly_append isHex_hex (length_hex (by decide) (hw c.insn)),Option.bind_eq_bind,
    Option.bind_some,ofHex_hex]
  cases c.write with
  | none => rfl
  | some w =>
    have hn : (renderWrite (w.1.toNat,w.2.toNat)).all isSpace = false := by
      rw [renderWrite,List.all_cons,List.all_append,List.rightpad,List.cons_append,List.all_cons]
      rfl
    have hr := rtlWrite_render (w.1.toNat,w.2.toNat) (hw w.2) []
    rw [List.append_nil] at hr
    simp only [Option.toList_some,List.map_cons,List.map_nil,List.flatMap_cons,List.flatMap_nil,
      List.append_nil,hn,Bool.false_eq_true,if_false,hr,Option.bind_some,hspace,if_true]
    rfl

/-! ### The file -/

theorem clean_of {p : Char → Bool} (hp : p '\r' = false ∧ p '\n' = false) {l : Line}
    (h : ∀ c ∈ l, p c = true) : Clean l := by
  refine SocUart.clean_chars.mpr fun c hc => ⟨?_,?_⟩
  · rintro rfl
    exact Bool.false_ne_true (hp.1.symm.trans (h _ hc))
  · rintro rfl
    exact Bool.false_ne_true (hp.2.symm.trans (h _ hc))

theorem clean_line (c : Core.Commit) : Clean (Trace.line c) := by
  have hh : ∀ n, Clean (hex 8 n) := fun n => clean_of (p := isHex) (by decide) isHex_hex
  have hd : ∀ n, Clean (decimal n) := fun n =>
    clean_of (p := Char.isDigit) (by decide) isDigit_decimal
  have hc : Clean [')'] := by decide
  have hr : ∀ w : Nat × Nat, Clean (renderWrite w) := by
    intro w
    have hpad : Clean (('x'::decimal w.1).rightpad 3 ' ') := by
      refine Clean.append (Clean.append (a := ['x']) (by decide) (hd _)) ?_
      exact clean_of (p := (· == ' ')) (by decide) fun c hc => by
        rw [List.eq_of_mem_replicate hc]
        rfl
    exact Clean.append (a := [' ']) (by decide) (hpad.append (Clean.append (by decide) (hh _)))
  have h := render_append (record c) []
  rw [List.append_nil] at h
  rw [line_eq,h,List.append_nil]
  have htail : Clean ((record c).writes.flatMap renderWrite) := by
    rw [record]
    cases c.write with
    | none => rfl
    | some w =>
      rw [Option.toList_some,List.map_singleton,List.flatMap_singleton]
      exact hr _
  refine Clean.append (by decide) ((hh _).append (Clean.append (by decide) (Clean.append (by decide)
    ((hh _).append (hc.append htail)))))

theorem linesOf_append {l : Line} (h : Clean l) (t : List Char) :
    SocUart.linesOf (l ++ '\n'::t) = l::SocUart.linesOf t := by
  have hchars := SocUart.clean_chars.mp h
  have hcr : SocUart.replaceCr l = l :=
    (List.map_congr_left fun c hc => if_neg (hchars c hc).1).trans (List.map_id' l)
  have hnl : '\n' ∉ SocUart.replaceCr l := by
    rw [hcr]
    exact fun hc => (hchars _ hc).2 rfl
  have ht : SocUart.replaceCrLf ('\n'::t) = '\n'::SocUart.replaceCrLf t := by
    rw [SocUart.replaceCrLf]
    intro m hm
    cases hm
  rw [SocUart.linesOf,SocUart.replaceCrLf_clean h,ht,SocUart.replaceCr,List.map_append]
  change (SocUart.replaceCr l ++ '\n'::SocUart.replaceCr (SocUart.replaceCrLf t)).splitOn '\n' = _
  rw [List.splitOn_append_cons_self_of_not_mem hnl,hcr]
  rfl

/-- The differ reads every commit of the monitor's file, up to the first at `stopPc`. -/
theorem rtlRecords_file (cs : List Core.Commit) (stopPc : Option Nat) :
    rtlRecords (Trace.file cs) stopPc =
      .ok ((cs.map record).takeWhile fun r => stopPc != some r.pc) := by
  have hfrom : ∀ (cs : List Core.Commit) (n : Nat),
      rtlFrom stopPc n (SocUart.linesOf (Trace.file cs)) =
        .ok ((cs.map record).takeWhile fun r => stopPc != some r.pc) := by
    intro cs
    induction cs with
    | nil => exact fun n => rfl
    | cons c cs ih =>
      intro n
      have hne : Trace.line c ≠ [] := by
        intro h
        have hl := rtlLine_line c
        rw [h] at hl
        cases hl
      rw [Trace.file,List.flatMap_cons,List.append_assoc,List.singleton_append,
        linesOf_append (clean_line c),← Trace.file,rtlFrom,if_neg hne,rtlLine_line,ih,
        List.map_cons,List.takeWhile_cons]
      by_cases hs : stopPc = some (record c).pc
      · rw [if_neg (by simp [hs])]
        exact if_pos hs
      · rw [if_pos (by simpa using hs)]
        exact if_neg hs
  exact hfrom cs 1

theorem spikeTrace_lines (l : List (Record × List Line)) (h : ∀ e ∈ l, ∀ t ∈ e.2, Annotation t) :
    spikeTrace (l.map fun e => spikeLine e.1 e.2) = l.map Prod.fst := by
  rw [spikeTrace,List.filterMap_map,← List.filterMap_eq_map]
  exact List.filterMap_congr fun e he => commitLine_spikeLine e.1 (h e he)

theorem log_lines (l : List (Core.Commit × List Line)) (h : ∀ e ∈ l, ∀ t ∈ e.2, Annotation t) :
    spikeTrace (l.map fun e => spikeLine (record e.1) e.2) = (l.map Prod.fst).map record := by
  have hl := spikeTrace_lines (l.map fun e => (record e.1,e.2)) fun e he => by
    obtain ⟨d,hd,rfl⟩ := List.mem_map.mp he
    exact h d hd
  rw [List.map_map,List.map_map] at hl
  rw [List.map_map]
  exact hl

/-- The two parsers read the same records: of Spike's log, whatever it adds to its lines,
and of the monitor's, as far as the differ looks. -/
theorem log_round_trip (l : List (Core.Commit × List Line))
    (h : ∀ e ∈ l, ∀ t ∈ e.2, Annotation t) (stopPc : Option Nat) :
    let spike := l.map fun e => spikeLine (record e.1) e.2
    spikeTrace spike = (l.map Prod.fst).map record ∧
      rtlRecords (Trace.file (l.map Prod.fst)) stopPc =
        .ok ((spikeTrace spike).takeWhile fun r => stopPc != some r.pc) := by
  intro spike
  have hs := log_lines l h
  exact ⟨hs,hs ▸ rtlRecords_file _ stopPc⟩

/-- The same store twice, of different values. -/
theorem log_round_trip_store :
    let mem : Char → List Line := fun c =>
      ["mem".toList,"0x00000000".toList,"0x0000000".toList ++ [c]]
    let store : Core.Commit := ⟨0x80000004,0x00502023,none⟩
    let l := [(⟨0x80000000,0x00500293,some (5,5)⟩,[]),(store,mem '5'),(store,mem '6')]
    let spike := l.map fun e => spikeLine (record e.1) e.2
    spikeTrace spike = (l.map Prod.fst).map record ∧
      rtlRecords (Trace.file (l.map Prod.fst)) (some 0x80000008) =
        .ok ((spikeTrace spike).takeWhile fun r => some 0x80000008 != some r.pc) := by
  refine log_round_trip _ (fun e he t ht => ?_) _
  simp only [List.mem_cons,List.not_mem_nil,or_false] at he
  rcases he with rfl | rfl | rfl
  · cases ht
  · simp only [List.mem_cons,List.not_mem_nil,or_false] at ht
    rcases ht with rfl | rfl | rfl <;> exact ⟨List.all_eq_true.mp rfl,_,rfl,by decide⟩
  · simp only [List.mem_cons,List.not_mem_nil,or_false] at ht
    rcases ht with rfl | rfl | rfl <;> exact ⟨List.all_eq_true.mp rfl,_,rfl,by decide⟩

/-! ### The comparison -/

theorem firstDivergence_eq_none {a b : List Record} (h : firstDivergence a b = none) :
    ∀ k < min a.length b.length, a[k]? = b[k]? := by
  intro k hk
  have ha : k < a.length := by omega
  have hb : k < b.length := by omega
  rw [firstDivergence,List.findIdx?_eq_none_iff] at h
  have hr := h (a[k],b[k]) (List.mem_iff_getElem.mpr ⟨k,by simpa using ⟨ha,hb⟩,List.getElem_zip⟩)
  rw [bne_eq_false_iff_eq] at hr
  rw [List.getElem?_eq_getElem ha,List.getElem?_eq_getElem hb]
  exact congrArg some (render_injective hr)

theorem firstDivergence_eq_some {a b : List Record} {k : Nat} (h : firstDivergence a b = some k) :
    k < min a.length b.length ∧ a[k]? ≠ b[k]? ∧ ∀ j < k, a[j]? = b[j]? := by
  rw [firstDivergence,List.findIdx?_eq_some_iff_getElem] at h
  obtain ⟨hk,hne,hlt⟩ := h
  rw [List.length_zip] at hk
  have ha : k < a.length := by omega
  have hb : k < b.length := by omega
  refine ⟨hk,fun he => ?_,fun j hj => ?_⟩
  · rw [List.getElem?_eq_getElem ha,List.getElem?_eq_getElem hb] at he
    rw [List.getElem_zip,bne_iff_ne] at hne
    exact hne (congrArg render (Option.some.inj he))
  · have heq := hlt j hj
    rw [List.getElem_zip,Bool.not_eq_true,bne_eq_false_iff_eq] at heq
    rw [List.getElem?_eq_getElem (by omega),List.getElem?_eq_getElem (by omega)]
    exact congrArg some (render_injective heq)

theorem report_head (a b : List Record) (k : Nat) (context : Int) :
    reportHead a b k <+: report a b k context := by
  rw [report]
  simp only [List.cons_append,List.intercalate_cons_cons]
  exact ⟨_,(List.append_assoc _ _ _).symm⟩

theorem diff_eq_none_iff {a b : List Record} {context : Int} :
    diff a b context = none ↔ a = b := by
  cases hf : firstDivergence a b with
  | some k =>
    obtain ⟨_,hne,_⟩ := firstDivergence_eq_some hf
    rw [diff,hf]
    exact ⟨fun h => (nomatch h),fun h => absurd (by rw [h]) hne⟩
  | none =>
    have hall := firstDivergence_eq_none hf
    rw [diff,hf]
    by_cases hl : a.length = b.length
    · refine ⟨fun _ => List.ext_getElem? fun k => ?_,fun _ => if_pos hl⟩
      by_cases hk : k < min a.length b.length
      · exact hall k hk
      · rw [List.getElem?_eq_none (by omega),List.getElem?_eq_none (by omega)]
    · refine ⟨fun h => ?_,fun h => absurd (by rw [h]) hl⟩
      dsimp only at h
      rw [if_neg hl] at h
      cases h

theorem diff_eq_some {a b : List Record} {context : Int} {r : Line}
    (h : diff a b context = some r) : ∃ k, r = report a b k context ∧ a[k]? ≠ b[k]? ∧
      ∀ j < k, a[j]? = b[j]? := by
  cases hf : firstDivergence a b with
  | some k =>
    obtain ⟨_,hne,hlt⟩ := firstDivergence_eq_some hf
    rw [diff,hf] at h
    exact ⟨k,(Option.some.inj h).symm,hne,hlt⟩
  | none =>
    have hall := firstDivergence_eq_none hf
    rw [diff,hf] at h
    dsimp only at h
    split at h
    · cases h
    · rename_i hl
      refine ⟨_,(Option.some.inj h).symm,fun he => ?_,hall⟩
      rcases Nat.lt_or_gt_of_ne hl with h | h
      · rw [List.getElem?_eq_none (l := a) (by omega),
          List.getElem?_eq_getElem (l := b) (by omega)] at he
        cases he
      · rw [List.getElem?_eq_getElem (l := a) (by omega),
          List.getElem?_eq_none (l := b) (by omega)] at he
        cases he

/-- The differ passes exactly the equal logs, and what it reports of others starts with
the first commit at which they part. -/
theorem diff_exact (a b : List Record) (context : Int) :
    (diff a b context = none ↔ a = b) ∧
      ∀ r, diff a b context = some r → ∃ k, reportHead a b k <+: r ∧ a[k]? ≠ b[k]? ∧
        ∀ j < k, a[j]? = b[j]? := by
  refine ⟨diff_eq_none_iff,fun r hr => ?_⟩
  obtain ⟨k,rfl,hne,hlt⟩ := diff_eq_some hr
  exact ⟨k,report_head a b k context,hne,hlt⟩

end Cosim

end Rvntt
