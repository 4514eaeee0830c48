import Mathlib.Tactic.Ring
import Rvntt.SocCapture
set_option autoImplicit false

/-!
What the checker makes of the captures of a board that works.
-/

namespace Rvntt

namespace SocUart

open Hello (puthex hexDigits hx crlf text)
open Text (lit lit_append)

/-! ### Matching what was printed -/

theorem hex_char {n : Nat} (h : n < 16) : hexVal (hx.getD n '0') = some n ∧
    hx.getD n '0' ≠ '\r' ∧ hx.getD n '0' ≠ '\n' ∧ hx.getD n '0' ≠ '=' ∧
    isSpace (hx.getD n '0') = false := by
  have hall : ∀ n < 16, hexVal (hx.getD n '0') = some n ∧
    hx.getD n '0' ≠ '\r' ∧ hx.getD n '0' ≠ '\n' ∧ hx.getD n '0' ≠ '=' ∧
    isSpace (hx.getD n '0') = false := by decide
  exact hall n h

theorem nibble_toNat (v : Word) (i : Nat) :
    ((v >>> (i*4)) &&& 0xF).toNat = v.toNat/16^i % 16 := by
  have h16 : (16 : Nat)^i = 2^(i*4) := by rw [Nat.mul_comm,Nat.pow_mul]
  rw [BitVec.toNat_and,BitVec.toNat_ushiftRight,Nat.shiftRight_eq_div_pow,h16]
  exact Nat.and_two_pow_sub_one_eq_mod _ 4

theorem hexNum_hexDigits (v : Word) (n acc : Nat) (l : List Char) :
    hexNum acc n (hexDigits v n ++ l) = some (acc*16^n+v.toNat % 16^n,l) := by
  induction n generalizing acc with
  | zero => simp [hexNum,hexDigits,Nat.mod_one]
  | succ n ih =>
    have hlt : v.toNat/16^n % 16 < 16 := Nat.mod_lt _ (by omega)
    rw [hexDigits,List.cons_append,hexNum,nibble_toNat,(hex_char hlt).1]
    simp only [ih,Option.some.injEq,Prod.mk.injEq,and_true]
    rw [Nat.pow_succ,Nat.mod_mul,Nat.add_mul]
    ring

theorem mem_hexDigits {v : Word} {n : Nat} {c : Char} (h : c ∈ hexDigits v n) :
    c ≠ '\r' ∧ c ≠ '\n' ∧ c ≠ '=' ∧ isSpace c = false := by
  induction n with
  | zero => cases h
  | succ n ih =>
    rcases List.mem_cons.mp h with rfl | h
    · rw [nibble_toNat]
      exact (hex_char (Nat.mod_lt _ (by omega))).2
    · exact ih h

theorem length_hexDigits (v : Word) (n : Nat) : (hexDigits v n).length = n := by
  induction n with
  | zero => rfl
  | succ n ih => rw [hexDigits,List.length_cons,ih]

def parsed (b : Hello.Block) : Block where
  sw := (b.gin &&& 0xF).toNat
  btn := (b.gin >>> 4 &&& 0xF).toNat
  mcycle := b.cyc.toNat
  minstret := b.ins.toNat
  echo := b.rx.map BitVec.toNat
  overrun := b.overrun
  img :=
    match b.img with
    | none => "OK".toList
    | some v => "BAD ".toList ++ puthex v 8
  iter := b.iter.toNat

theorem hexNum_puthex (v : Word) {n : Nat} (h : v.toNat < 16^n) (l : List Char) :
    hexNum 0 n (hexDigits v n ++ l) = some (v.toNat,l) := by
  rw [hexNum_hexDigits,Nat.zero_mul,Nat.zero_add,Nat.mod_eq_of_lt h]

theorem nibble_lt (v : Word) : (v &&& 0xF).toNat < 16^1 := by
  rw [BitVec.toNat_and]
  exact Nat.lt_of_le_of_lt Nat.and_le_right (by decide)

theorem eol_nil : eol [] = some () := rfl

theorem spaces_text {s : List Char} (h : (s.head?.any fun c => !isSpace c) = true)
    (l : List Char) : spaces (" ".toList ++ (s ++ l)) = some (s ++ l) := by
  cases s with
  | nil => cases h
  | cons c s =>
    have hc : isSpace c = false := by simpa using h
    have hsp : isSpace ' ' = true := by decide
    change spaces (' '::c::(s ++ l)) = _
    rw [spaces,if_pos hsp,List.dropWhile_cons,hc]
    rfl

theorem hexNum_word (v : Word) (l : List Char) :
    hexNum 0 8 (hexDigits v 8 ++ l) = some (v.toNat,l) :=
  hexNum_puthex v v.isLt l

theorem reHello_line : reHello "hello=Hello, world!".toList = some () := by
  have h := lit_append "hello=Hello, world!".toList []
  rw [List.append_nil] at h
  rw [reHello,h]
  rfl

theorem reGpio_line (b : Hello.Block) :
    reGpio b.gpioLine = some ((parsed b).sw,(parsed b).btn) := by
  have h1 : "sw=0x".toList = "sw=".toList ++ "0x".toList := by decide
  have h2 (l : List Char) : " ".toList ++ ("btn=0x".toList ++ l) =
      " btn=".toList ++ ("0x".toList ++ l) := by
    have h : " ".toList ++ "btn=0x".toList = " btn=".toList ++ "0x".toList := by decide
    rw [← List.append_assoc,h,List.append_assoc]
  have hl : b.gpioLine = "sw=0x".toList ++ (hexDigits (b.gin &&& 0xF) 1 ++
      (" ".toList ++ ("btn=0x".toList ++ (hexDigits (b.gin >>> 4 &&& 0xF) 1 ++ [])))) := by
    unfold Hello.Block.gpioLine puthex
    simp only [h1,List.append_assoc,List.append_nil]
    rw [h2]
  rw [reGpio,hl]
  simp only [lit_append,hexNum_puthex _ (nibble_lt _),spaces_text (s := "btn=0x".toList) (by decide),
    eol_nil,Option.bind_eq_bind,Option.bind_some]
  rfl

theorem reCnt_line (b : Hello.Block) :
    reCnt b.countLine = some ((parsed b).mcycle,(parsed b).minstret) := by
  have h1 : "mcycle=0x".toList = "mcycle=".toList ++ "0x".toList := by decide
  have h2 (l : List Char) : " ".toList ++ ("minstret=0x".toList ++ l) =
      " minstret=".toList ++ ("0x".toList ++ l) := by
    have h : " ".toList ++ "minstret=0x".toList = " minstret=".toList ++ "0x".toList := by decide
    rw [← List.append_assoc,h,List.append_assoc]
  have hl : b.countLine = "mcycle=0x".toList ++ (hexDigits b.cyc 8 ++
      (" ".toList ++ ("minstret=0x".toList ++ (hexDigits b.ins 8 ++ [])))) := by
    unfold Hello.Block.countLine puthex
    simp only [h1,List.append_assoc,List.append_nil]
    rw [h2]
  rw [reCnt,hl]
  simp only [lit_append,hexNum_word,spaces_text (s := "minstret=0x".toList) (by decide),eol_nil,
    Option.bind_eq_bind,Option.bind_some]
  rfl

theorem overrunEol_text (echo : Option Nat) (o : Bool) :
    overrunEol echo (if o then " overrun".toList else []) = some (echo,o) := by
  cases o with
  | false => rfl
  | true =>
    have h := lit_append " overrun".toList []
    rw [List.append_nil] at h
    simp only [overrunEol,if_true,h,eol_nil,Option.map_some]

theorem reEcho_line (b : Hello.Block) :
    reEcho b.echoLine = some ((parsed b).echo,(parsed b).overrun) := by
  unfold reEcho Hello.Block.echoLine
  simp only [List.append_assoc,lit_append]
  cases hb : b.rx with
  | none =>
    simp only [Option.bind_eq_bind,Option.bind_some,lit_append,overrunEol_text,parsed,hb,
      Option.map_none]
  | some c =>
    have hn (l : List Char) : lit "none".toList ("0x".toList ++ l) = none := by simp [lit]
    have hc : (c.setWidth 32).toNat = c.toNat := by
      rw [BitVec.toNat_setWidth,Nat.mod_eq_of_lt (by have := c.isLt; omega)]
    have hlt : (c.setWidth 32).toNat < 16^2 := by
      rw [hc]
      exact c.isLt
    simp only [Option.bind_eq_bind,Option.bind_some,puthex,List.append_assoc,hn,lit_append,
      hexNum_puthex _ hlt,overrunEol_text,parsed,hb,Option.map_some,hc]

theorem reImg_line (b : Hello.Block) : reImg b.imgLine = some (parsed b).img := by
  unfold reImg Hello.Block.imgLine
  simp only [lit_append]
  cases hb : b.img with
  | none =>
    have h := lit_append "OK".toList []
    rw [List.append_nil] at h
    simp only [Option.bind_eq_bind,Option.bind_some,h,eol_nil,Option.map_some,parsed,hb]
  | some v =>
    have hn (l : List Char) : lit "OK".toList ("BAD ".toList ++ l) = none := by simp [lit]
    have h1 : "BAD 0x".toList = "BAD ".toList ++ "0x".toList := by decide
    have hl : "BAD ".toList ++ puthex v 8 = "BAD 0x".toList ++ (hexDigits v 8 ++ []) := by
      rw [h1,puthex,List.append_nil,List.append_assoc]
    have htake : ("BAD ".toList ++ puthex v 8).take 14 = "BAD ".toList ++ puthex v 8 := by
      refine List.take_of_length_le ?_
      rw [List.length_append,puthex,List.length_append,length_hexDigits]
      decide
    simp only [Option.bind_eq_bind,Option.bind_some,hn,htake]
    rw [hl]
    simp only [lit_append,hexNum_word,eol_nil,Option.bind_some,Option.map_some,parsed,hb]
    rw [← hl]

theorem reIter_line (b : Hello.Block) : reIter b.iterLine = some (parsed b).iter := by
  have h1 : "iter=0x".toList = "iter=".toList ++ "0x".toList := by decide
  have hl : b.iterLine = "iter=0x".toList ++ (hexDigits b.iter 8 ++ []) := by
    unfold Hello.Block.iterLine puthex
    simp only [h1,List.append_assoc,List.append_nil]
  rw [reIter,hl]
  simp only [lit_append,hexNum_word,eol_nil,Option.bind_eq_bind,Option.bind_some]
  rfl

theorem parseBody_printed (i : Nat) (b : Hello.Block) :
    parseBody i ["hello=Hello, world!".toList,b.gpioLine,b.countLine,b.echoLine,b.imgLine,
      b.iterLine] = (some (parsed b),[]) := by
  simp only [parseBody,reHello_line,reGpio_line,reCnt_line,reEcho_line,reImg_line,reIter_line,
    orElse,Option.isSome_some,if_true,Option.bind_eq_bind,Option.bind_some,List.append_nil]
  rfl

/-! ### Lines -/

def Clean (l : Line) : Prop := (l.all fun c => c != '\r' && c != '\n') = true

instance (l : Line) : Decidable (Clean l) := instDecidableEqBool _ _

theorem clean_chars {l : Line} : Clean l ↔ ∀ c ∈ l, c ≠ '\r' ∧ c ≠ '\n' := by
  simp [Clean,List.all_eq_true]

theorem Clean.append {a b : Line} (ha : Clean a) (hb : Clean b) : Clean (a ++ b) := by
  rw [Clean,List.all_append,ha,hb]
  rfl

theorem clean_puthex (v : Word) (n : Nat) : Clean (puthex v n) := by
  have h : Clean "0x".toList := by decide
  exact h.append (clean_chars.mpr fun _ hc => ⟨(mem_hexDigits hc).1,(mem_hexDigits hc).2.1⟩)

theorem count_puthex (v : Word) (n : Nat) : (puthex v n).count '=' = 0 := by
  have hz : "0x".toList.count '=' = 0 := by decide
  rw [puthex,List.count_append,hz,Nat.zero_add]
  exact List.count_eq_zero_of_not_mem fun h => (mem_hexDigits h).2.2.1 rfl

def Ends (l : Line) : Prop := (l.getLast?.any fun c => !isSpace c) = true

theorem Ends.append {a b : Line} (h : Ends b) : Ends (a ++ b) := by
  have hb : b ≠ [] := by
    rintro rfl
    cases h
  rw [Ends,List.getLast?_append_of_ne_nil _ hb]
  exact h

theorem ends_puthex (v : Word) (n : Nat) : Ends (puthex v (n+1)) := by
  refine Ends.append ?_
  have hne : hexDigits v (n+1) ≠ [] := by
    rw [hexDigits]
    exact List.cons_ne_nil _ _
  rw [Ends,List.getLast?_eq_some_getLast hne,Option.any_some,Bool.not_eq_true']
  exact (mem_hexDigits (List.getLast_mem hne)).2.2.2

theorem strip_eq {l : Line} (h : (l.head?.any fun c => !isSpace c) = true) (he : Ends l) :
    strip l = l := by
  have hdrop : ∀ {m : Line}, (m.head?.any fun c => !isSpace c) = true →
      m.dropWhile isSpace = m := by
    intro m hm
    cases m with
    | nil => rfl
    | cons c m =>
      have hc : isSpace c = false := by simpa using hm
      rw [List.dropWhile_cons,hc]
      rfl
  rw [strip,hdrop h,hdrop (by rw [List.head?_reverse]; exact he),List.reverse_reverse]

theorem strip_sublist (l : Line) : (strip l).Sublist l := by
  have h := (List.dropWhile_suffix (l := (l.dropWhile isSpace).reverse) isSpace).sublist.reverse
  rw [List.reverse_reverse] at h
  exact h.trans (List.dropWhile_suffix isSpace).sublist

structure BodyLine (l : Line) : Prop where
  clean : Clean l
  marks : l.count '=' < 6
  stripped : strip l = l

theorem bodyLine_hello : BodyLine "hello=Hello, world!".toList where
  clean := by decide
  marks := by decide
  stripped := by decide

theorem bodyLine_gpio (b : Hello.Block) : BodyLine b.gpioLine where
  clean := by
    have h1 : Clean "sw=".toList := by decide
    have h2 : Clean " btn=".toList := by decide
    exact ((h1.append (clean_puthex _ _)).append h2).append (clean_puthex _ _)
  marks := by
    unfold Hello.Block.gpioLine
    simp only [List.count_append,count_puthex]
    decide
  stripped := strip_eq rfl (Ends.append (ends_puthex _ 0))

theorem bodyLine_count (b : Hello.Block) : BodyLine b.countLine where
  clean := by
    have h1 : Clean "mcycle=".toList := by decide
    have h2 : Clean " minstret=".toList := by decide
    exact ((h1.append (clean_puthex _ _)).append h2).append (clean_puthex _ _)
  marks := by
    unfold Hello.Block.countLine
    simp only [List.count_append,count_puthex]
    decide
  stripped := strip_eq rfl (Ends.append (ends_puthex _ 7))

theorem bodyLine_echo (b : Hello.Block) : BodyLine b.echoLine where
  clean := by
    have h1 : Clean "echo=".toList := by decide
    have h2 : Clean "none".toList := by decide
    have h3 : Clean " overrun".toList := by decide
    have h4 : Clean [] := by decide
    unfold Hello.Block.echoLine
    refine (h1.append ?_).append ?_
    · cases b.rx
      · exact h2
      · exact clean_puthex _ _
    · cases b.overrun
      · exact h4
      · exact h3
  marks := by
    unfold Hello.Block.echoLine
    cases b.rx with
    | none => cases b.overrun <;> decide
    | some c =>
      simp only [List.count_append,count_puthex]
      cases b.overrun <;> decide
  stripped := by
    unfold Hello.Block.echoLine
    have h2 : Ends "none".toList := by unfold Ends; decide
    have h3 : Ends " overrun".toList := by unfold Ends; decide
    cases b.overrun with
    | true =>
      refine strip_eq ?_ (Ends.append h3)
      cases b.rx <;> rfl
    | false =>
      simp only [Bool.false_eq_true,if_false,List.append_nil]
      cases b.rx with
      | none => exact strip_eq rfl (Ends.append h2)
      | some c => exact strip_eq rfl (Ends.append (ends_puthex _ 1))

theorem bodyLine_img (b : Hello.Block) : BodyLine b.imgLine where
  clean := by
    have h1 : Clean "img=".toList := by decide
    have h2 : Clean "OK".toList := by decide
    have h3 : Clean "BAD ".toList := by decide
    unfold Hello.Block.imgLine
    refine h1.append ?_
    cases b.img
    · exact h2
    · exact h3.append (clean_puthex _ _)
  marks := by
    unfold Hello.Block.imgLine
    cases b.img with
    | none => decide
    | some v =>
      simp only [List.count_append,count_puthex]
      decide
  stripped := by
    unfold Hello.Block.imgLine
    have h2 : Ends "OK".toList := by unfold Ends; decide
    cases b.img with
    | none => exact strip_eq rfl (Ends.append h2)
    | some v => exact strip_eq rfl (Ends.append (Ends.append (ends_puthex _ 7)))

theorem bodyLine_iter (b : Hello.Block) : BodyLine b.iterLine where
  clean := by
    have h1 : Clean "iter=".toList := by decide
    exact h1.append (clean_puthex _ _)
  marks := by
    unfold Hello.Block.iterLine
    simp only [List.count_append,count_puthex]
    decide
  stripped := strip_eq rfl (Ends.append (ends_puthex _ 7))

theorem BodyLine.unmarked {l l' : Line} (h : BodyLine l) (hs : l'.Sublist l) :
    strip l' ≠ START ∧ strip l' ≠ END := by
  have hlt : (strip l').count '=' < 6 :=
    Nat.lt_of_le_of_lt (((strip_sublist l').trans hs).count_le '=') h.marks
  constructor
  · intro h
    rw [h] at hlt
    exact absurd hlt (by decide)
  · intro h
    rw [h] at hlt
    exact absurd hlt (by decide)

/-! ### Cutting the text -/

theorem replaceCrLf_clean {l : Line} (h : Clean l) (t : List Char) :
    replaceCrLf (l ++ t) = l ++ replaceCrLf t := by
  induction l with
  | nil => rfl
  | cons c l ih =>
    have h := clean_chars.mp h
    have hc : c ≠ '\r' := (h c List.mem_cons_self).1
    have ih := ih (clean_chars.mpr fun d hd => h d (List.mem_cons_of_mem _ hd))
    rw [List.cons_append,replaceCrLf,ih,List.cons_append]
    intro m hm
    exact absurd hm hc

theorem linesOf_line {l : Line} (h : Clean l) (t : List Char) :
    linesOf (l ++ crlf ++ t) = l::linesOf t := by
  have hchars := clean_chars.mp h
  have hcr : replaceCr l = l :=
    (List.map_congr_left fun c hc => if_neg (hchars c hc).1).trans (List.map_id' l)
  have hnl : '\n' ∉ replaceCr l := by
    rw [hcr]
    exact fun hc => (hchars _ hc).2 rfl
  rw [List.append_assoc,linesOf,replaceCrLf_clean h,replaceCr,List.map_append]
  change (replaceCr l ++ '\n'::replaceCr (replaceCrLf t)).splitOn '\n' = _
  rw [List.splitOn_append_cons_self_of_not_mem hnl,hcr]
  rfl

theorem linesOf_newline (t : List Char) : linesOf ('\n'::t) = []::linesOf t := by
  have h : replaceCrLf ('\n'::t) = '\n'::replaceCrLf t := by
    rw [replaceCrLf]
    intro m hm
    cases hm
  rw [linesOf,h]
  change (replaceCr [] ++ '\n'::replaceCr (replaceCrLf t)).splitOn '\n' = _
  rw [List.splitOn_append_cons_self_of_not_mem (by simp [replaceCr])]
  rfl

theorem text_cons (l : Line) (ls : List Line) : text (l::ls) = l ++ (crlf ++ text ls) := by
  rw [text,List.flatMap_cons,← text,List.append_assoc]

theorem linesOf_text {ls : List Line} (h : ∀ l ∈ ls, Clean l) (t : List Char) :
    linesOf (text ls ++ t) = ls ++ linesOf t := by
  induction ls with
  | nil => rfl
  | cons l ls ih =>
    have hl := h l List.mem_cons_self
    rw [text_cons,← List.append_assoc l,List.append_assoc,linesOf_line hl,
      ih fun m hm => h m (List.mem_cons_of_mem _ hm),List.cons_append]

theorem suffix_append {α : Type} {t a b : List α} (h : t <:+ a ++ b) :
    t <:+ b ∨ ∃ a', a' <:+ a ∧ t = a' ++ b := by
  obtain ⟨p,hp⟩ := h
  rcases List.append_eq_append_iff.mp hp with ⟨c,hc,hb⟩ | ⟨c,_,hb⟩
  · exact .inr ⟨c,⟨p,hc.symm⟩,hb⟩
  · exact .inl ⟨c,hb.symm⟩

/-- What a tail of some lines is cut into: a tail of one of them, and those behind it. -/
theorem linesOf_tail {ls : List Line} (h : ∀ l ∈ ls, Clean l) {tail : List Char}
    (ht : tail <:+ text ls) (t : List Char) : linesOf (tail ++ t) = linesOf t ∨
      ∃ pre l post l', ls = pre ++ l::post ∧ l' <:+ l ∧
        linesOf (tail ++ t) = l'::(post ++ linesOf t) ∧
        (pre = [] → l' = l → l ≠ [] → tail = text ls) := by
  induction ls with
  | nil =>
    rw [List.suffix_nil.mp ht]
    exact .inl rfl
  | cons l ls ih =>
    have hls : ∀ m ∈ ls, Clean m := fun m hm => h m (List.mem_cons_of_mem _ hm)
    rw [text_cons] at ht
    rcases suffix_append ht with ht | ⟨l',hl',rfl⟩
    · rcases List.suffix_cons_iff.mp ht with rfl | ht
      · refine .inr ⟨[],l,ls,[],rfl,List.nil_suffix,?_,fun _ h0 h1 => absurd h0.symm h1⟩
        rw [← linesOf_text hls]
        exact linesOf_line (l := []) rfl _
      rcases List.suffix_cons_iff.mp ht with rfl | ht
      · refine .inr ⟨[],l,ls,[],rfl,List.nil_suffix,?_,fun _ h0 h1 => absurd h0.symm h1⟩
        rw [← linesOf_text hls]
        exact linesOf_newline _
      rcases ih hls ht with ih | ⟨pre,m,post,m',rfl,hm,hl,_⟩
      · exact .inl ih
      · exact .inr ⟨l::pre,m,post,m',rfl,hm,hl,fun h0 => absurd h0 (List.cons_ne_nil _ _)⟩
    · have hc : Clean l' := clean_chars.mpr fun c hc =>
        clean_chars.mp (h l List.mem_cons_self) c (hl'.subset hc)
      refine .inr ⟨[],l,ls,l',rfl,hl',?_,fun _ h0 _ => ?_⟩
      · rw [← linesOf_text hls,List.append_assoc,List.append_assoc,← List.append_assoc l']
        exact linesOf_line hc _
      · rw [h0,text_cons]

/-! ### The scan -/

theorem parseFrom_skip {z : List Line} (h : ∀ l ∈ z, strip l ≠ START) (i : Nat) (w : List Line) :
    parseFrom i (z ++ w) = parseFrom (i+z.length) w := by
  induction z generalizing i with
  | nil => rfl
  | cons l z ih =>
    rw [List.cons_append,parseFrom,if_pos (h l List.mem_cons_self),
      ih fun m hm => h m (List.mem_cons_of_mem _ hm)]
    congr 1
    rw [List.length_cons]
    omega

theorem parseFrom_block {l e : Line} {ls body rest : List Line} (hl : strip l = START)
    (ht : takeBody ls = (body,e::rest)) (he : strip e = END) (i : Nat) :
    parseFrom i (l::ls) =
      ((parseBody i body).1.toList ++ (parseFrom (i+1+body.length+1) rest).1,
        (parseBody i body).2 ++ (parseFrom (i+1+body.length+1) rest).2) := by
  rw [parseFrom,if_neg (by rw [hl]; exact fun h => h rfl)]
  split
  · rename_i h
    rw [ht] at h
    cases h
  · rename_i h
    rw [ht] at h
    cases h
    rw [if_neg (by rw [he]; exact fun h => h rfl)]

theorem takeBody_body {body : List Line} (h : ∀ l ∈ body, BodyLine l) {e : Line}
    (he : strip e = END) (w : List Line) : takeBody (body ++ e::w) = (body,e::w) := by
  induction body with
  | nil => rw [List.nil_append,takeBody,if_pos (.inl he)]
  | cons l body ih =>
    have hl := h l List.mem_cons_self
    obtain ⟨h1,h2⟩ := hl.unmarked (List.Sublist.refl l)
    rw [List.cons_append,takeBody,if_neg (fun h => h.elim h2 h1),
      ih fun m hm => h m (List.mem_cons_of_mem _ hm),hl.stripped]

def bodyOf (b : Hello.Block) : List Line :=
  ["hello=Hello, world!".toList,b.gpioLine,b.countLine,b.echoLine,b.imgLine,b.iterLine]

theorem bodyLines (b : Hello.Block) : ∀ l ∈ bodyOf b, BodyLine l := by
  intro l hl
  simp only [bodyOf,List.mem_cons,List.not_mem_nil,or_false] at hl
  rcases hl with rfl | rfl | rfl | rfl | rfl | rfl
  · exact bodyLine_hello
  · exact bodyLine_gpio b
  · exact bodyLine_count b
  · exact bodyLine_echo b
  · exact bodyLine_img b
  · exact bodyLine_iter b

theorem lines_eq (b : Hello.Block) : b.lines = START::(bodyOf b ++ [END]) := rfl

theorem clean_lines (b : Hello.Block) : ∀ l ∈ b.lines, Clean l := by
  intro l hl
  have h1 : Clean START := by decide
  have h2 : Clean END := by decide
  rw [lines_eq] at hl
  rcases List.mem_cons.mp hl with rfl | hl
  · exact h1
  rcases List.mem_append.mp hl with hl | hl
  · exact (bodyLines b l hl).clean
  · rw [List.mem_singleton.mp hl]
    exact h2

theorem parseFrom_printed (b : Hello.Block) (i : Nat) (w : List Line) :
    parseFrom i (b.lines ++ w) =
      (parsed b::(parseFrom (i+8) w).1,(parseFrom (i+8) w).2) := by
  have hs : strip START = START := by decide
  have he : strip END = END := by decide
  have ht : takeBody (bodyOf b ++ END::w) = (bodyOf b,END::w) := takeBody_body (bodyLines b) he w
  have hl : b.lines ++ w = START::(bodyOf b ++ END::w) := by
    rw [lines_eq,List.cons_append,List.append_assoc]
    rfl
  rw [hl,parseFrom_block hs ht he,bodyOf,parseBody_printed]
  rfl

/-- No line of a proper tail of a block starts a block. -/
theorem tail_skipped (d : Hello.Block) {tail : List Char} (ht : tail <:+ text d.lines)
    (hne : tail ≠ text d.lines) (t : List Char) :
    ∃ z, linesOf (tail ++ t) = z ++ linesOf t ∧ ∀ l ∈ z, strip l ≠ START := by
  -- a marker is too short, a line of the body has too few of its signs
  have hshort : ∀ {l : Line}, l.length < 17 → strip l ≠ START := by
    intro l hl h
    have hle := (strip_sublist l).length_le
    rw [h] at hle
    exact absurd (Nat.lt_of_le_of_lt hle hl) (by decide)
  have hrest : ∀ l ∈ bodyOf d ++ [END], ∀ l', l' <:+ l → strip l' ≠ START := by
    intro l hl l' hl'
    rcases List.mem_append.mp hl with hl | hl
    · exact ((bodyLines d l hl).unmarked hl'.sublist).1
    · rw [List.mem_singleton.mp hl] at hl'
      exact hshort (Nat.lt_of_le_of_lt hl'.length_le (by decide))
  rcases linesOf_tail (clean_lines d) ht t with h | ⟨pre,l,post,l',hls,hl',h,hwhole⟩
  · exact ⟨[],h,fun l hl => by cases hl⟩
  · refine ⟨l'::post,h,fun m hm => ?_⟩
    rw [lines_eq] at hls
    rcases List.mem_cons.mp hm with rfl | hm
    · cases pre with
      | nil =>
        obtain ⟨h1,_⟩ := List.cons.inj hls
        subst h1
        have hlt : m.length < START.length :=
          Nat.lt_of_le_of_ne hl'.length_le fun h0 =>
            hne (hwhole rfl (hl'.eq_of_length h0) (by decide))
        exact hshort hlt
      | cons p pre =>
        obtain ⟨_,h2⟩ := List.cons.inj hls
        refine hrest l ?_ m hl'
        rw [h2]
        exact List.mem_append_right _ List.mem_cons_self
    · refine hrest m ?_ m (List.suffix_refl m)
      cases pre with
      | nil =>
        obtain ⟨_,h2⟩ := List.cons.inj hls
        rw [h2]
        exact hm
      | cons p pre =>
        obtain ⟨_,h2⟩ := List.cons.inj hls
        rw [h2]
        exact List.mem_append_right _ (List.mem_cons_of_mem _ hm)

theorem parseFrom_blocks (bs : List Hello.Block) (i : Nat) :
    parseFrom i (linesOf (bs.flatMap fun b => text b.lines)) = (bs.map parsed,[]) := by
  induction bs generalizing i with
  | nil =>
    have h : strip [] ≠ START := by decide
    change parseFrom i [[]] = ([],[])
    rw [parseFrom,if_pos h,parseFrom]
  | cons b bs ih =>
    rw [List.flatMap_cons,linesOf_text (clean_lines b),parseFrom_printed,ih]
    rfl

theorem parseBlocks_capture (d : Hello.Block) {tail : List Char} (ht : tail <:+ text d.lines)
    (hne : tail ≠ text d.lines) (bs : List Hello.Block) :
    parseBlocks (tail ++ bs.flatMap fun b => text b.lines) = (bs.map parsed,[]) := by
  obtain ⟨z,hz,hno⟩ := tail_skipped d ht hne (bs.flatMap fun b => text b.lines)
  rw [parseBlocks,hz,parseFrom_skip hno,parseFrom_blocks]

/-! ### Healthy captures -/

/-- What one turn of the loop of a healthy board reads, with the counters as they are. -/
structure Turn where
  gin : Word
  mcycle : BitVec 64
  minstret : BitVec 64
  rx : Option (BitVec 8)
  overrun : Bool
  iter : Word

/-- The low halves are what is printed. -/
def Turn.block (a : Turn) : Hello.Block where
  gin := a.gin
  cyc := a.mcycle.setWidth 32
  ins := a.minstret.setWidth 32
  rx := a.rx
  overrun := a.overrun
  img := none
  iter := a.iter

/-- Two turns in a row: the loop counts, and the counters advance by less than 2^32. -/
def Follows (a b : Turn) : Prop :=
  b.iter = a.iter+1 ∧
    (a.mcycle.toNat < b.mcycle.toNat ∧ b.mcycle.toNat < a.mcycle.toNat+2^32) ∧
    a.minstret.toNat < b.minstret.toNat ∧ b.minstret.toNat < a.minstret.toNat+2^32

/-- None of the three printed counters wraps from one turn to the next. -/
def NoWrap (a b : Turn) : Prop :=
  a.mcycle.toNat/2^32 = b.mcycle.toNat/2^32 ∧ a.minstret.toNat/2^32 = b.minstret.toNat/2^32 ∧
    a.iter.toNat+1 < 2^32

/-- A capture that starts inside a block. -/
def capture (tail : List Char) (turns : List Turn) : List Char :=
  tail ++ turns.flatMap fun a => text a.block.lines

theorem low_advances {a b : BitVec 64} (h : a.toNat < b.toNat) (h' : b.toNat < a.toNat+2^32) :
    (b.setWidth 32).toNat ≤ (a.setWidth 32).toNat ↔ a.toNat/2^32 ≠ b.toNat/2^32 := by
  rw [BitVec.toNat_setWidth,BitVec.toNat_setWidth]
  omega

/-- The comparison of two blocks in a row finds a wrap, and nothing else. -/
theorem moving_nil {a b : Turn} (h : Follows a b) :
    moving (parsed a.block) (parsed b.block) = [] ↔ NoWrap a b := by
  obtain ⟨hi,⟨hc,hc'⟩,hn,hn'⟩ := h
  have hc := low_advances hc hc'
  have hn := low_advances hn hn'
  have hiter : b.iter.toNat ≠ a.iter.toNat+1 ↔ ¬a.iter.toNat+1 < 2^32 := by
    have hlt := a.iter.isLt
    rw [hi,BitVec.toNat_add]
    change (a.iter.toNat+1) % 2^32 ≠ a.iter.toNat+1 ↔ _
    omega
  have hif : ∀ {p : Prop} [Decidable p] {f : Finding},
      (if p then [f] else []) = [] ↔ ¬p := by
    intro p _ f
    by_cases hp : p <;> simp [hp]
  rw [moving,List.append_eq_nil_iff,List.append_eq_nil_iff,hif,hif,hif]
  change (¬b.iter.toNat ≠ a.iter.toNat+1 ∧ ¬(b.mcycle.setWidth 32).toNat ≤
    (a.mcycle.setWidth 32).toNat) ∧ ¬(b.minstret.setWidth 32).toNat ≤
      (a.minstret.setWidth 32).toNat ↔ NoWrap a b
  rw [hiter,hc,hn,NoWrap,not_not,not_not,not_not]
  constructor
  · rintro ⟨⟨h1,h2⟩,h3⟩
    exact ⟨h2,h3,h1⟩
  · rintro ⟨h2,h3,h1⟩
    exact ⟨⟨h1,h2⟩,h3⟩

def steps (bs : List Block) : List Finding :=
  (bs.zip bs.tail).flatMap fun p => moving p.1 p.2

theorem steps_nil {turns : List Turn} (h : turns.IsChain Follows) :
    steps (turns.map fun a => parsed a.block) = [] ↔ turns.IsChain NoWrap := by
  induction turns with
  | nil => exact ⟨fun _ => .nil,fun _ => rfl⟩
  | cons a turns ih =>
    cases turns with
    | nil => exact ⟨fun _ => .singleton a,fun _ => rfl⟩
    | cons b turns =>
      obtain ⟨hab,hrest⟩ := List.isChain_cons_cons.mp h
      rw [List.isChain_cons_cons,← ih hrest,← moving_nil hab]
      exact List.append_eq_nil_iff

theorem check_capture (d : Hello.Block) {tail : List Char} (ht : tail <:+ text d.lines)
    (hne : tail ≠ text d.lines) (turns : List Turn) {minBlocks : Int}
    (hm : minBlocks ≤ turns.length) : check (capture tail turns) none minBlocks none none =
      some ((steps (turns.map fun a => parsed a.block)).isEmpty,
        steps (turns.map fun a => parsed a.block)) := by
  have hp : parseBlocks (capture tail turns) = (turns.map fun a => parsed a.block,[]) := by
    have h := parseBlocks_capture d ht hne (turns.map Turn.block)
    rw [List.flatMap_map,List.map_map] at h
    exact h
  have hlen : ¬(((turns.map fun a => parsed a.block).length : Int) < minBlocks) := by
    rw [List.length_map]
    omega
  have himg : (turns.map fun a => parsed a.block).find? (fun b => b.img != "OK".toList) =
      none := by
    rw [List.find?_eq_none]
    intro b hb
    obtain ⟨a,_,rfl⟩ := List.mem_map.mp hb
    simp [parsed,Turn.block]
  rw [check,hp]
  simp only [if_neg hlen,himg,checkFirst,Option.bind_eq_bind,Option.bind_some,List.nil_append,
    List.append_nil]
  rfl

theorem check_healthy (d : Hello.Block) {tail : List Char} (ht : tail <:+ text d.lines)
    (hne : tail ≠ text d.lines) {turns : List Turn} (hf : turns.IsChain Follows)
    {minBlocks : Int} (hm : minBlocks ≤ turns.length) :
    (check (capture tail turns) none minBlocks none none).map Prod.fst = some true ↔
      turns.IsChain NoWrap := by
  rw [check_capture d ht hne turns hm,← steps_nil hf,Option.map_some,Option.some.injEq,
    List.isEmpty_iff]

/-- Two turns, with `mcycle` running into its upper half between them. -/
def acrossWrap : List Turn :=
  [⟨0,0xFFFFF000,0x800,none,false,0⟩,⟨0,0x100000800,0x900,some 0x5A,false,1⟩]

theorem empty_tail (d : Hello.Block) : [] <:+ text d.lines ∧ [] ≠ text d.lines :=
  ⟨List.nil_suffix,fun h => by
    have hlen := congrArg List.length h
    rw [lines_eq,text_cons,List.length_append] at hlen
    have hpos : 0 < START.length := by decide
    rw [List.length_nil] at hlen
    omega⟩

/-- Two turns without a wrap, of which the second has echoed a byte and lost another. -/
def calm : List Turn :=
  [⟨0x2,0x1F0000800,0x800,none,false,0xFFFE⟩,⟨0x12,0x1F4787900,0x900,some 0x5A,true,0xFFFF⟩]

/-- The capture starts inside a line break. -/
theorem check_healthy_calm :
    (check (capture "\n=== end ===\r\n".toList calm) none 2 none none).map Prod.fst = some true :=
  (check_healthy ⟨0,0,0,none,false,none,0xFFFD⟩
    (by decide) (by decide)
    (List.isChain_cons_cons.mpr ⟨⟨by decide,⟨by decide,by decide⟩,by decide,by decide⟩,
      .singleton _⟩)
    (by decide)).mpr
    (List.isChain_cons_cons.mpr ⟨⟨by decide,by decide,by decide⟩,.singleton _⟩)

/-- The block behind the wrap prints the smaller number. -/
theorem wrap_rejected : acrossWrap.IsChain Follows ∧
    check (capture [] acrossWrap) none 2 none none =
      some (false,[.mcycleStep 0xFFFFF000 0x800]) := by
  refine ⟨?_,?_⟩
  · refine List.isChain_cons_cons.mpr ⟨?_,.singleton _⟩
    exact ⟨by decide,⟨by decide,by decide⟩,by decide,by decide⟩
  · have h := check_capture ⟨0,0,0,none,false,none,0⟩ (empty_tail _).1 (empty_tail _).2 acrossWrap
      (show (2 : Int) ≤ acrossWrap.length by decide)
    rw [h]
    have hs : steps (acrossWrap.map fun a => parsed a.block) = [.mcycleStep 0xFFFFF000 0x800] := by
      decide
    rw [hs]
    rfl

end SocUart

end Rvntt
