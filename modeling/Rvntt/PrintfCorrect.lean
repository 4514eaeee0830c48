import Mathlib.Data.List.TakeWhile
import Mathlib.Data.Nat.Digits.Lemmas
import Rvntt.BenchPrintf
set_option autoImplicit false

/-!
`bench_printf` against the C standard's description of its conversions.
-/

namespace Rvntt

namespace BenchIo

/-! ### What the standard prescribes -/

inductive Flag where
  | minus | zero
  deriving DecidableEq, Repr

def Flag.byte : Flag → Byte
  | minus => ch '-'
  | zero => ch '0'

inductive IntConv where
  | d | i | u | x | X
  deriving DecidableEq, Repr

namespace IntConv

def byte : IntConv → Byte
  | d => ch 'd'
  | i => ch 'i'
  | u => ch 'u'
  | x => ch 'x'
  | X => ch 'X'

def base : IntConv → Nat
  | d | i | u => 10
  | x | X => 16

def signed : IntConv → Bool
  | d | i => true
  | u | x | X => false

def value (c : IntConv) (v : BitVec 32) : Int := if c.signed then v.toInt else v.toNat

end IntConv

def digit (upper : Bool) (d : Nat) : Byte :=
  if d < 10 then BitVec.ofNat 8 (48+d)
  else BitVec.ofNat 8 ((if upper then 65 else 97)+(d-10))

def digitsOf (base n : Nat) : List Nat := if n = 0 then [0] else (Nat.digits base n).reverse

def numeral (base : Nat) (upper : Bool) (n : Nat) : List Byte := (digitsOf base n).map (digit upper)

def spaces (n : Nat) : List Byte := List.replicate n (ch ' ')
def zeros (n : Nat) : List Byte := List.replicate n (ch '0')

def field (left : Bool) (width : Nat) (s : List Byte) : List Byte :=
  if left then s ++ spaces (width-s.length) else spaces (width-s.length) ++ s

/-- A number in its field. Zeros go between the sign and the digits; `-` overrides `0`. -/
def number (left zero : Bool) (width : Nat) (sign digits : List Byte) : List Byte :=
  if !left && zero then sign ++ zeros (width-(sign ++ digits).length) ++ digits
  else field left width (sign ++ digits)

def CString : Type := {s : List Byte // ∀ b ∈ s, b ≠ 0}

/-- A piece of a format, with its argument. A width of 0 is one left out, and with `c` and
`s` the only flag is `-`, any number of times. `lc` takes a wide character; those of the
basic set have their byte as code, the others depend on the locale. -/
inductive Piece where
  | lit (b : Byte) (h : b ≠ 0 ∧ b ≠ ch '%')
  | percent
  | num (flags : List Flag) (width : Nat) (l : Bool) (conv : IntConv) (v : BitVec 32)
  | chr (minus width : Nat) (l : Bool) (v : BitVec 32)
      (h : l = true → 0 < v.toNat ∧ v.toNat < 128)
  | str (minus width : Nat) (s : Option CString)

namespace Piece

def widthText (w : Nat) : List Byte := if w = 0 then [] else numeral 10 false w

def fmt : Piece → List Byte
  | lit b _ => [b]
  | percent => [ch '%',ch '%']
  | num flags width l conv _ =>
    ch '%'::(flags.map Flag.byte ++ (widthText width ++ ((if l then [ch 'l'] else []) ++
      [conv.byte])))
  | chr minus width l _ _ =>
    ch '%'::(List.replicate minus (ch '-') ++ (widthText width ++ ((if l then [ch 'l'] else []) ++
      [ch 'c'])))
  | str minus width _ => ch '%'::(List.replicate minus (ch '-') ++ (widthText width ++ [ch 's']))

def args : Piece → List Arg
  | lit _ _ | percent => []
  | num _ _ l _ v => [if l then .long v else .int v]
  | chr _ _ _ v _ => [.int v]
  | str _ _ s => [.str (s.map Subtype.val)]

def sign (conv : IntConv) (v : BitVec 32) : List Byte := if conv.value v < 0 then [ch '-'] else []

def digits (conv : IntConv) (v : BitVec 32) : List Byte :=
  numeral conv.base (conv == .X) (conv.value v).natAbs

def text : Piece → List Byte
  | lit b _ => [b]
  | percent => [ch '%']
  | num flags width _ conv v =>
    number (flags.contains .minus) (flags.contains .zero) width (sign conv v) (digits conv v)
  | chr minus width _ v _ => field (0 < minus) width [v.setWidth 8]
  | str minus width s => field (0 < minus) width ((s.map Subtype.val).getD nullText)

end Piece

def format (ps : List Piece) : List Byte := ps.flatMap Piece.fmt
def arguments (ps : List Piece) : List Arg := ps.flatMap Piece.args
def prescribed (ps : List Piece) : List Byte := ps.flatMap Piece.text

/-! ### Reading a number back -/

def digitVal (base : Nat) (b : Byte) : Option Nat :=
  let n := b.toNat
  let d := if 48 ≤ n ∧ n ≤ 57 then n-48 else if 65 ≤ n ∧ n ≤ 70 then n-55
    else if 97 ≤ n ∧ n ≤ 102 then n-87 else base
  if d < base then some d else none

def readNumber (base : Nat) (l : List Byte) : Option Int :=
  let l := l.dropWhile fun b => b == ch ' '
  let neg := l.head? == some (ch '-')
  let l := if neg then l.tail else l
  let ds := (l.takeWhile fun b => (digitVal base b).isSome).filterMap (digitVal base)
  let n : Int := (ds.foldl (fun a d => base*a+d) 0 : Nat)
  if ds = [] then none else some (if neg then -n else n)

/-! ### Digits -/

theorem digitsOf_lt {base : Nat} (hb : 1 < base) (n : Nat) : ∀ d ∈ digitsOf base n, d < base := by
  intro d hd
  unfold digitsOf at hd
  split at hd
  · rw [List.mem_singleton] at hd
    omega
  · exact Nat.digits_lt_base hb (List.mem_reverse.mp hd)

theorem foldl_digitsOf (base n : Nat) :
    (digitsOf base n).foldl (fun a d => base*a+d) 0 = n := by
  unfold digitsOf
  split
  · simp [*]
  · have hcomm : (fun (d a : Nat) => base*a+d) = fun d a => d+base*a := by
      funext d a
      exact Nat.add_comm _ _
    rw [List.foldl_reverse]
    exact (congrArg (fun f => (Nat.digits base n).foldr f 0) hcomm).trans
      ((Nat.ofDigits_eq_foldr base _).symm.trans (Nat.ofDigits_digits base n))

theorem digitsOf_length {base n k : Nat} (hb : 1 < base) (hk : 0 < k) (hn : n < base^k) :
    (digitsOf base n).length ≤ k := by
  unfold digitsOf
  split
  · exact hk
  · rw [List.length_reverse]
    exact (Nat.digits_length_le_iff hb n).mpr hn

theorem digitsOf_head (base : Nat) {n : Nat} (hn : n ≠ 0) :
    ∃ d l, d ≠ 0 ∧ digitsOf base n = d::l := by
  have hne : Nat.digits base n ≠ [] := Nat.digits_ne_nil_iff_ne_zero.mpr hn
  refine ⟨(Nat.digits base n).getLast hne,(Nat.digits base n).dropLast.reverse,
    Nat.getLast_digit_ne_zero base hn,?_⟩
  rw [digitsOf,if_neg hn]
  conv_lhs => rw [← List.dropLast_append_getLast hne]
  rw [List.reverse_append]
  rfl

theorem digit_table (upper : Bool) {d : Nat} (h : d < 16) :
    (if upper then up else lo).getD d 0 = digit upper d := by
  have hall : ∀ upper : Bool, ∀ d < 16, (if upper then up else lo).getD d 0 = digit upper d := by
    decide
  exact hall upper d h

theorem digitLoop_eq {base : Nat} (hb : 1 < base) (hb' : base ≤ 16) (upper : Bool) (v : Nat) :
    digitLoop (if upper then up else lo) base v = (Nat.digits base v).map (digit upper) := by
  induction v using Nat.strong_induction_on with
  | _ v ih =>
    rw [digitLoop]
    rcases Nat.eq_zero_or_pos v with rfl | hv
    · simp
    · have hlt : v % base < 16 := Nat.lt_of_lt_of_le (Nat.mod_lt v (by omega)) hb'
      rw [dif_pos ⟨by omega,hb⟩,digit_table upper hlt,ih _ (Nat.div_lt_self hv hb),
        Nat.digits_def' hb hv,List.map_cons]

/-! ### Numbers -/

theorem cint_of_le {n : Nat} (h : n ≤ 2147483647) : cint n = some (n : Int) := by
  rw [cint,if_pos (by omega)]

theorem cint_width_sub {w n : Nat} (hw : w ≤ 2147483647) (hn : n ≤ 2147483648) :
    cint ((w : Int)-n) = some ((w : Int)-n) := by
  rw [cint,if_pos (by omega)]

theorem emitPad_eq (n : Int) (b : Byte) :
    emitPad n b = (List.replicate n.toNat b,(n.toNat : Int)) := by
  rw [emitPad]
  congr 1
  split
  all_goals omega

theorem field_length (left : Bool) (width : Nat) (s : List Byte) :
    (field left width s).length = max width s.length := by
  have hmax : s.length+(width-s.length) = max width s.length := by omega
  cases left
  · rw [field,if_neg (by decide),List.length_append,spaces,List.length_replicate,Nat.add_comm,hmax]
  · rw [field,if_pos rfl,List.length_append,spaces,List.length_replicate,hmax]

theorem number_length (left zero : Bool) (width : Nat) (sgn ds : List Byte) :
    (number left zero width sgn ds).length = max width (sgn ++ ds).length := by
  unfold number
  split
  · rw [List.append_assoc,List.length_append,List.length_append,zeros,List.length_replicate,
      List.length_append]
    omega
  · exact field_length left width _

/-- What `emit_num` leaves in `buf`, the last digit first. -/
theorem digits_reverse {base : Nat} (hb : base = 10 ∨ base = 16) (upper : Bool) (v : BitVec 32) :
    (if v = 0 then [ch '0'] else []) ++ digitLoop (if upper then up else lo) base v.toNat =
      (numeral base upper v.toNat).reverse := by
  rw [digitLoop_eq (by omega) (by omega),numeral,digitsOf]
  by_cases hv : v = 0
  · subst hv
    rw [if_pos rfl,show (0 : BitVec 32).toNat = 0 from rfl,Nat.digits_zero,if_pos rfl]
    cases upper
    all_goals rfl
  · have hv' : v.toNat ≠ 0 := fun h => hv (BitVec.eq_of_toNat_eq h)
    rw [if_neg hv,if_neg hv',List.nil_append,List.map_reverse,List.reverse_reverse]

theorem numeral_length {base : Nat} (hb : base = 10 ∨ base = 16) (upper : Bool) (v : BitVec 32) :
    (numeral base upper v.toNat).length ≤ 10 := by
  have hpow : v.toNat < base^10 := by
    rcases hb with rfl | rfl
    all_goals omega
  rw [numeral,List.length_map]
  exact digitsOf_length (by omega) (by decide) hpow

theorem put_three {a b c t : List Byte} {x y z : Int} (hx : x = a.length) (hy : y = b.length)
    (hz : z = c.length) (ht : a ++ b ++ c = t) (h : t.length ≤ 2147483647) :
    ((cint (x+y+z)).bind fun out => some (a ++ b ++ c,out)) = some (t,(t.length : Int)) := by
  subst ht
  have hsum : x+y+z = ((a ++ b ++ c).length : Int) := by
    rw [hx,hy,hz,List.length_append,List.length_append]
    omega
  rw [hsum,cint_of_le h]
  rfl

def signText (neg : Bool) : List Byte := if neg then [ch '-'] else []

theorem signText_length (neg : Bool) : (signText neg).length ≤ 1 := by
  cases neg
  all_goals decide

theorem emitNum_eq {base : Nat} (hb : base = 10 ∨ base = 16) (v : BitVec 32)
    (upper neg : Bool) (width : Nat) (zero left : Bool) (hw : width ≤ 2147483647) :
    emitNum v base upper neg width zero left =
      some (number left zero width (signText neg) (numeral base upper v.toNat),
        ((number left zero width (signText neg) (numeral base upper v.toNat)).length : Int)) := by
  have hlen := numeral_length hb upper v
  have hbuf : (if v = 0 then [ch '0'] else []) ++
      digitLoop (if upper then up else lo) base v.toNat ++ (if neg then [ch '-'] else []) =
      (signText neg ++ numeral base upper v.toNat).reverse := by
    rw [digits_reverse hb,List.reverse_append]
    cases neg
    all_goals rfl
  unfold emitNum
  simp only [hbuf,List.length_reverse]
  generalize numeral base upper v.toNat = ds at *
  have hk : (signText neg ++ ds).length ≤ 11 := by
    have := signText_length neg
    rw [List.length_append]
    omega
  have hle : (number left zero width (signText neg) ds).length ≤ 2147483647 := by
    rw [number_length]
    omega
  have hpad : ((width : Int)-(signText neg ++ ds).length).toNat =
      width-(signText neg ++ ds).length := by omega
  have hall : ((signText neg ++ ds).reverse.take (signText neg ++ ds).length).reverse =
      signText neg ++ ds := by
    rw [List.take_of_length_le (Nat.le_of_eq List.length_reverse),List.reverse_reverse]
  rw [if_neg (by omega),cint_width_sub hw (by omega),Option.bind_eq_bind,Option.bind_some]
  cases left
  · cases zero
    · simp only [emitPad_eq,hpad,Bool.not_false,Bool.and_false,Bool.false_eq_true,if_false,if_true,
        Int.toNat_natCast,hall]
      exact put_three (by rw [List.length_replicate]) rfl rfl (List.append_nil _) hle
    · cases neg
      · simp only [emitPad_eq,hpad,Bool.not_false,Bool.and_true,Bool.false_eq_true,if_false,if_true,
          Int.toNat_natCast,hall]
        exact put_three (by rw [List.length_replicate]) rfl rfl (List.append_nil _) hle
      · -- the sign has been put out, and stays behind in `buf`
        have hn : ((signText true ++ ds).length : Int)-1 = (ds.length : Int) := by
          rw [List.length_append]
          change ((1+ds.length : Nat) : Int)-1 = ds.length
          omega
        have hrest : ((signText true ++ ds).reverse.take ds.length).reverse = ds := by
          rw [List.reverse_append,← List.length_reverse,List.take_left,List.reverse_reverse]
        simp only [emitPad_eq,hpad,Bool.not_false,Bool.and_true,Bool.false_eq_true,if_false,if_true,
          hn,Int.toNat_natCast,hrest]
        refine put_three ?_ rfl rfl (List.append_nil _) hle
        rw [List.length_cons,List.length_replicate]
        omega
  · simp only [emitPad_eq,hpad,Bool.not_true,Bool.false_and,Bool.false_eq_true,if_false,if_true,
      Int.toNat_natCast,hall]
    exact put_three rfl rfl (by rw [List.length_replicate]) rfl hle

theorem emitField_eq (s : List Byte) (width : Nat) (left : Bool)
    (h : max width s.length ≤ 2147483647) :
    emitField s width left = some (field left width s,((field left width s).length : Int)) := by
  have hpad : ((width : Int)-s.length).toNat = width-s.length := by omega
  have hle : (field left width s).length ≤ 2147483647 := by rwa [field_length]
  rw [emitField,cint_of_le (by omega),Option.bind_eq_bind,Option.bind_some,
    cint_width_sub (by omega) (by omega),Option.bind_some]
  cases left
  · simp only [emitPad_eq,hpad,Bool.not_false,Bool.false_eq_true,if_false,if_true]
    exact put_three (by rw [List.length_replicate]) rfl rfl (List.append_nil _) hle
  · simp only [emitPad_eq,hpad,Bool.not_true,Bool.false_eq_true,if_false,if_true]
    exact put_three rfl rfl (by rw [List.length_replicate]) rfl hle

/-! ### The format -/

theorem flagLoop_flags (flags : List Flag) {c : Byte} (hc : c ≠ ch '-' ∧ c ≠ ch '0')
    (l : List Byte) (f : Bool × Bool) :
    flagLoop (flags.map Flag.byte ++ c::l) f =
      ((f.1 || flags.contains .minus,f.2 || flags.contains .zero),c::l) := by
  induction flags generalizing f with
  | nil => simp [flagLoop,hc]
  | cons x flags ih =>
    rw [List.map_cons,List.cons_append,flagLoop]
    cases x
    · rw [if_pos (by decide),ih]
      simp
    · rw [if_neg (by decide),if_pos (by decide),ih]
      simp

theorem le_foldl (ds : List Nat) (a : Nat) : a ≤ ds.foldl (fun a d => 10*a+d) a := by
  induction ds generalizing a with
  | nil => exact Nat.le_refl _
  | cons d ds ih => exact Nat.le_trans (show a ≤ 10*a+d by omega) (ih _)

theorem digit_toNat {d : Nat} (h : d < 10) : (digit false d).toNat = 48+d := by
  rw [digit,if_pos h,BitVec.toNat_ofNat]
  omega

theorem widthLoop_digits {ds : List Nat} (hds : ∀ d ∈ ds, d < 10) {c : Byte}
    (hc : isDigit c = false) (l : List Byte) (a : Nat)
    (h : ds.foldl (fun a d => 10*a+d) a ≤ 2147483647) :
    widthLoop a (ds.map (digit false) ++ c::l) =
      some (((ds.foldl (fun a d => 10*a+d) a : Nat) : Int),c::l) := by
  induction ds generalizing a with
  | nil => rw [List.map_nil,List.nil_append,widthLoop,if_neg (by simp [hc])];rfl
  | cons d ds ih =>
    have hd : d < 10 := hds d (.head _)
    have hle := le_foldl ds (10*a+d)
    rw [List.foldl_cons] at h ⊢
    have hdig : isDigit (digit false d) = true := by
      rw [isDigit,digit_toNat hd]
      simp only [Bool.and_eq_true,decide_eq_true_eq]
      omega
    have hw : ((a : Int)*10) = ((a*10 : Nat) : Int) := by omega
    have hw' : ((a*10 : Nat) : Int)+(((digit false d).toNat : Int)-48) = ((10*a+d : Nat) : Int) := by
      rw [digit_toNat hd]
      omega
    rw [List.map_cons,List.cons_append,widthLoop,if_pos hdig,hw,cint_of_le (by omega),
      Option.bind_eq_bind,Option.bind_some,hw',cint_of_le (by omega),Option.bind_some]
    exact ih (fun x hx => hds x (.tail _ hx)) _ h

def Ends (c : Byte) : Prop :=
  c ≠ ch '-' ∧ isDigit c = false ∧ c ≠ ch 'l' ∧ c ≠ ch 'h' ∧ c ≠ ch 'z'

instance (c : Byte) : Decidable (Ends c) := by
  unfold Ends
  infer_instance

theorem modLoop_text (l : Bool) {c : Byte} (hc : Ends c) (rest : List Byte) :
    modLoop false ((if l then [ch 'l'] else []) ++ c::rest) = (l,c::rest) := by
  obtain ⟨_,_,hl,hh,hz⟩ := hc
  have hend : ∀ lng, modLoop lng (c::rest) = (lng,c::rest) := by
    intro lng
    rw [modLoop,if_neg]
    rintro (h | h | h)
    exacts [hl h,hh h,hz h]
  cases l
  · exact hend false
  · rw [if_pos rfl,List.cons_append,List.nil_append,modLoop,if_pos (.inl rfl)]
    exact hend true

theorem modifier_head (l : Bool) {c : Byte} (hc : Ends c) (rest : List Byte) :
    ∃ b t, (if l then [ch 'l'] else []) ++ c::rest = b::t ∧ isDigit b = false ∧ b ≠ ch '-' := by
  cases l
  · exact ⟨c,rest,rfl,hc.2.1,hc.1⟩
  · exact ⟨ch 'l',c::rest,rfl,by decide,by decide⟩

theorem digit_flag {d : Nat} (h : d < 10) (h0 : d ≠ 0) :
    digit false d ≠ ch '-' ∧ digit false d ≠ ch '0' := by
  have hn := digit_toNat h
  constructor
  all_goals
    intro heq
    rw [heq] at hn
    simp [ch] at hn
    omega

theorem widthLoop_text {width : Nat} (hw : width ≤ 2147483647) {b : Byte}
    (hb : isDigit b = false) (t : List Byte) :
    widthLoop 0 (Piece.widthText width ++ b::t) = some ((width : Int),b::t) := by
  rw [Piece.widthText]
  split
  case isTrue h0 =>
    rw [List.nil_append,widthLoop,if_neg (by simp [hb]),h0]
    rfl
  case isFalse h0 =>
    have hval := foldl_digitsOf 10 width
    exact (widthLoop_digits (digitsOf_lt (by decide) width) hb t 0 (by omega)).trans (by rw [hval])

theorem widthText_head (width : Nat) {b : Byte} (hb : isDigit b = false ∧ b ≠ ch '-')
    (t : List Byte) :
    ∃ x l, Piece.widthText width ++ b::t = x::l ∧ x ≠ ch '-' ∧ x ≠ ch '0' := by
  rw [Piece.widthText]
  split
  case isTrue h0 =>
    refine ⟨b,t,rfl,hb.2,?_⟩
    rintro rfl
    exact absurd hb.1 (by decide)
  case isFalse h0 =>
    obtain ⟨d,ds,hd,heq⟩ := digitsOf_head 10 h0
    have hlt : d < 10 := digitsOf_lt (by decide) width d (heq ▸ .head _)
    exact ⟨digit false d,_,by rw [numeral,heq];rfl,digit_flag hlt hd⟩

theorem directive_text (flags : List Flag) {width : Nat} (hw : width ≤ 2147483647) (l : Bool)
    {c : Byte} (hc : Ends c) (rest : List Byte) :
    directive (flags.map Flag.byte ++ (Piece.widthText width ++
      ((if l then [ch 'l'] else []) ++ c::rest))) =
      some ⟨flags.contains .minus,flags.contains .zero,width,l,c::rest⟩ := by
  have hmod := modLoop_text l hc rest
  obtain ⟨b,t,hbt,hb⟩ := modifier_head l hc rest
  rw [hbt] at hmod ⊢
  have hwidth := widthLoop_text hw hb.1 t
  obtain ⟨x,y,hxy,hx⟩ := widthText_head width hb t
  rw [hxy] at hwidth ⊢
  rw [directive,flagLoop_flags flags hx]
  simp only [Bool.false_or,hwidth,hmod,Option.bind_eq_bind,Option.bind_some]
  rfl

theorem neg_toNat (v : BitVec 32) :
    (if v.msb then -(v+1)+1 else v).toNat = v.toInt.natAbs := by
  have hv := v.isLt
  have hint := BitVec.toInt_eq_msb_cond v
  cases hm : v.msb
  · rw [hm] at hint
    simp only [Bool.false_eq_true,if_false] at hint ⊢
    omega
  · have hbig : 2^31 ≤ v.toNat := by
      rw [BitVec.msb_eq_decide] at hm
      simpa using hm
    rw [hm] at hint
    simp only [if_true] at hint ⊢
    rw [BitVec.toNat_add,BitVec.toNat_neg,BitVec.toNat_add]
    rw [show (1 : BitVec 32).toNat = 1 from rfl]
    omega

def magnitude (conv : IntConv) (v : BitVec 32) : BitVec 32 :=
  if conv.signed && v.msb then -(v+1)+1 else v

theorem value_neg (conv : IntConv) (v : BitVec 32) :
    decide (conv.value v < 0) = (conv.signed && v.msb) := by
  rw [IntConv.value]
  cases conv.signed
  · simp
  · rw [if_pos rfl,BitVec.msb_eq_toInt,Bool.true_and]

theorem sign_eq (conv : IntConv) (v : BitVec 32) :
    Piece.sign conv v = signText (conv.signed && v.msb) := by
  rw [← value_neg,Piece.sign,signText]
  simp

theorem magnitude_toNat (conv : IntConv) (v : BitVec 32) :
    (magnitude conv v).toNat = (conv.value v).natAbs := by
  rw [magnitude,IntConv.value]
  cases conv.signed
  · simp
  · simpa using neg_toNat v

def Converts (p : Piece) (c : Byte) (left zero : Bool) (width : Nat) (l : Bool) : Prop :=
  ∀ args, convert c left zero width l (p.args ++ args) = some ((p.text,(p.text.length : Int)),args)

theorem convert_num (flags : List Flag) {width : Nat} (hw : width ≤ 2147483647) (l : Bool)
    (conv : IntConv) (v : BitVec 32) :
    Converts (.num flags width l conv v) conv.byte (flags.contains .minus) (flags.contains .zero)
      width l := by
  intro args
  have hva : vaInteger l ((Piece.num flags width l conv v).args ++ args) = some (v,args) := by
    cases l
    all_goals rfl
  have hb : conv.base = 10 ∨ conv.base = 16 := by cases conv <;> decide
  have hemit := emitNum_eq hb (magnitude conv v) (conv == .X) (conv.signed && v.msb) width
    (flags.contains .zero) (flags.contains .minus) hw
  rw [← sign_eq,magnitude_toNat] at hemit
  have hshow : number (flags.contains .minus) (flags.contains .zero) width (Piece.sign conv v)
      (numeral conv.base (conv == .X) (conv.value v).natAbs) =
      (Piece.num flags width l conv v).text := rfl
  rw [hshow] at hemit
  generalize (Piece.num flags width l conv v).text = text at *
  generalize (Piece.num flags width l conv v).args ++ args = list at *
  have hthen := congrArg (fun o : Option Out => o.bind fun o => some (o,args)) hemit
  unfold convert
  cases conv
  case d | i =>
    rw [if_pos (by decide),hva]
    exact hthen
  case u =>
    rw [if_neg (by decide),if_pos (by decide),hva]
    exact hthen
  case x | X =>
    rw [if_neg (by decide),if_neg (by decide),if_pos (by decide),hva]
    exact hthen

theorem convert_chr (minus : Nat) {width : Nat} (hw : width ≤ 2147483647) (l : Bool)
    (v : BitVec 32) (h : l = true → 0 < v.toNat ∧ v.toNat < 128) (zero : Bool) :
    Converts (.chr minus width l v h) (ch 'c') (decide (0 < minus)) zero width l := by
  intro args
  unfold convert
  repeat rw [if_neg (by decide)]
  rw [if_pos rfl]
  have hemit := emitField_eq [v.setWidth 8] width (decide (0 < minus)) (by simp;omega)
  exact congrArg (fun o => o.bind fun o => some (o,args)) hemit

theorem takeWhile_cString (s : Option CString) :
    (((s.map Subtype.val).getD nullText).takeWhile fun b => b != 0) =
      (s.map Subtype.val).getD nullText := by
  cases s with
  | none => decide
  | some s =>
    apply List.takeWhile_eq_self_iff.mpr
    intro b hb
    exact bne_iff_ne.mpr (s.2 b hb)

theorem convert_str (minus : Nat) {width : Nat} (s : Option CString) (zero : Bool)
    (h : (Piece.str minus width s).text.length ≤ 2147483647) :
    Converts (.str minus width s) (ch 's') (decide (0 < minus)) zero width false := by
  intro args
  unfold convert
  repeat rw [if_neg (by decide)]
  rw [if_pos rfl]
  rw [Piece.text,field_length] at h
  have hemit := emitField_eq ((s.map Subtype.val).getD nullText) width (decide (0 < minus)) h
  simp only [Piece.args,List.cons_append,List.nil_append,takeWhile_cString]
  exact congrArg (fun o => o.bind fun o => some (o,args)) hemit

/-! ### The whole format -/

theorem vprintf_lit {c : Byte} (h0 : c ≠ 0) (h : c ≠ ch '%') (l : List Byte) (args : List Arg)
    (out : Int) :
    vprintf (c::l) args out =
      (cint (out+1)).bind fun out => (vprintf l args out).bind fun r => some (c::r.1,r.2) := by
  rw [vprintf,if_neg h0,if_pos h]
  rfl

theorem vprintf_directive {l rest : List Byte} {left zero lng : Bool} {width : Int} {c : Byte}
    (h : directive l = some ⟨left,zero,width,lng,c::rest⟩) (hc : c ≠ 0) (args : List Arg) (out : Int) :
    vprintf (ch '%'::l) args out =
      (convert c left zero width lng args).bind fun o =>
        (cint (out+o.1.2)).bind fun out =>
          (vprintf rest o.2 out).bind fun r => some (o.1.1 ++ r.1,r.2) := by
  rw [vprintf,if_neg (by decide),if_neg (by simp)]
  split
  case h_1 hnone => simp [h] at hnone
  case h_2 hsome =>
    cases h.symm.trans hsome
    exact if_neg hc

theorem vprintf_converts {p : Piece} {flags : List Flag} {width : Nat} {l : Bool} {c : Byte}
    (hfmt : p.fmt = ch '%'::(flags.map Flag.byte ++ (Piece.widthText width ++
      ((if l then [ch 'l'] else []) ++ [c]))))
    (hc : Ends c) (h0 : c ≠ 0) (hw : width ≤ 2147483647)
    (hconv : Converts p c (flags.contains .minus) (flags.contains .zero) width l)
    (fmt : List Byte) (args : List Arg) {out : Nat} (h : out+p.text.length ≤ 2147483647) :
    vprintf (p.fmt ++ fmt) (p.args ++ args) out =
      (vprintf fmt args (out+p.text.length : Nat)).bind fun r => some (p.text ++ r.1,r.2) := by
  have hdir := directive_text flags hw l hc fmt
  rw [hfmt,List.cons_append,List.append_assoc,List.append_assoc,List.append_assoc,
    List.singleton_append,vprintf_directive hdir h0,hconv args,Option.bind_some]
  have hsum : (out : Int)+(p.text.length : Int) = ((out+p.text.length : Nat) : Int) := by omega
  simp only [hsum,cint_of_le h,Option.bind_some]

theorem vprintf_minus {p : Piece} {minus width : Nat} {l : Bool} {c : Byte}
    (hfmt : p.fmt = ch '%'::(List.replicate minus (ch '-') ++ (Piece.widthText width ++
      ((if l then [ch 'l'] else []) ++ [c]))))
    (hc : Ends c) (h0 : c ≠ 0) (hw : width ≤ 2147483647)
    (hconv : ∀ zero, Converts p c (decide (0 < minus)) zero width l)
    (fmt : List Byte) (args : List Arg) {out : Nat} (h : out+p.text.length ≤ 2147483647) :
    vprintf (p.fmt ++ fmt) (p.args ++ args) out =
      (vprintf fmt args (out+p.text.length : Nat)).bind fun r => some (p.text ++ r.1,r.2) := by
  have hflags : List.replicate minus (ch '-') = (List.replicate minus Flag.minus).map Flag.byte := by
    rw [List.map_replicate]
    rfl
  have hcontains : (List.replicate minus Flag.minus).contains .minus = decide (0 < minus) := by
    cases minus
    all_goals simp
  rw [hflags] at hfmt
  exact vprintf_converts hfmt hc h0 hw (hcontains ▸ hconv _) fmt args h

/-- How one piece is read, from any place in the output. -/
theorem vprintf_piece (p : Piece) (fmt : List Byte) (args : List Arg) {out : Nat}
    (h : out+p.text.length ≤ 2147483647) :
    vprintf (p.fmt ++ fmt) (p.args ++ args) out =
      (vprintf fmt args (out+p.text.length : Nat)).bind fun r => some (p.text ++ r.1,r.2) := by
  cases p with
  | lit b hb =>
    have hone : (out : Int)+1 = ((out+1 : Nat) : Int) := by omega
    have h1 : out+1 ≤ 2147483647 := h
    exact (vprintf_lit hb.1 hb.2 fmt args out).trans (by rw [hone,cint_of_le h1];rfl)
  | percent =>
    have hfmt : Piece.percent.fmt = ch '%'::(([] : List Flag).map Flag.byte ++
        (Piece.widthText 0 ++ ((if false then [ch 'l'] else []) ++ [ch '%']))) := rfl
    refine vprintf_converts hfmt (by decide) (by decide) (by decide) ?_ fmt args h
    intro args
    unfold convert
    repeat rw [if_neg (by decide)]
    rw [if_pos rfl]
    rfl
  | num flags width l conv v =>
    have hw : width ≤ 2147483647 := by
      rw [Piece.text,number_length] at h
      omega
    exact vprintf_converts rfl (by cases conv <;> decide) (by cases conv <;> decide) hw
      (convert_num flags hw l conv v) fmt args h
  | chr minus width l v hv =>
    have hw : width ≤ 2147483647 := by
      rw [Piece.text,field_length] at h
      omega
    exact vprintf_minus rfl (by decide) (by decide) hw (convert_chr minus hw l v hv) fmt args h
  | str minus width s =>
    have hw : width ≤ 2147483647 := by
      rw [Piece.text,field_length] at h
      omega
    have hfmt : (Piece.str minus width s).fmt = ch '%'::(List.replicate minus (ch '-') ++
        (Piece.widthText width ++ ((if false then [ch 'l'] else []) ++ [ch 's']))) := rfl
    exact vprintf_minus hfmt (by decide) (by decide) hw
      (fun zero => convert_str minus s zero (by omega)) fmt args h

theorem vprintf_pieces (ps : List Piece) {out : Nat}
    (h : out+(prescribed ps).length ≤ 2147483647) :
    vprintf (format ps) (arguments ps) out =
      some (prescribed ps,((out+(prescribed ps).length : Nat) : Int)) := by
  induction ps generalizing out with
  | nil =>
    rw [format,List.flatMap_nil,vprintf]
    rfl
  | cons p ps ih =>
    rw [prescribed,List.flatMap_cons,List.length_append] at h
    rw [format,arguments,List.flatMap_cons,List.flatMap_cons,
      vprintf_piece p _ _ (by omega)]
    have hrest := @ih (out+p.text.length) (by rw [prescribed];omega)
    rw [format,arguments] at hrest
    rw [hrest,Option.bind_some,prescribed,prescribed,List.flatMap_cons,List.length_append,
      Nat.add_assoc]

/-! ### Reading back -/

theorem digitVal_digit {base : Nat} (hb : base = 10 ∨ base = 16) (upper : Bool) {d : Nat}
    (h : d < base) : digitVal base (digit upper d) = some d := by
  have h10 : ∀ upper : Bool, ∀ d < 10, digitVal 10 (digit upper d) = some d := by decide
  have h16 : ∀ upper : Bool, ∀ d < 16, digitVal 16 (digit upper d) = some d := by decide
  rcases hb with rfl | rfl
  · exact h10 upper d h
  · exact h16 upper d h

theorem digitVal_other {base : Nat} (hb : base = 10 ∨ base = 16) :
    digitVal base (ch ' ') = none ∧ digitVal base (ch '-') = none := by
  rcases hb with rfl | rfl
  all_goals decide

theorem dropWhile_spaces (n : Nat) (l : List Byte) :
    (spaces n ++ l).dropWhile (fun b => b == ch ' ') = l.dropWhile fun b => b == ch ' ' := by
  apply List.dropWhile_append_of_pos
  intro b hb
  exact beq_iff_eq.mpr (List.eq_of_mem_replicate hb)

theorem digits_read {base : Nat} (hb : base = 10 ∨ base = 16) (upper : Bool) {ds : List Nat}
    (hds : ∀ d ∈ ds, d < base) (n : Nat) :
    (((ds.map (digit upper) ++ spaces n).takeWhile fun b => (digitVal base b).isSome).filterMap
      (digitVal base)) = ds := by
  have htake : ((ds.map (digit upper) ++ spaces n).takeWhile fun b => (digitVal base b).isSome) =
      ds.map (digit upper) := by
    rw [List.takeWhile_append_of_pos]
    · cases n with
      | zero => simp [spaces]
      | succ n =>
        rw [spaces,List.replicate_succ,List.takeWhile_cons,(digitVal_other hb).1]
        simp
    · intro b hbm
      obtain ⟨d,hd,rfl⟩ := List.mem_map.mp hbm
      rw [digitVal_digit hb upper (hds d hd)]
      rfl
  rw [htake,List.filterMap_map]
  exact (List.filterMap_congr fun d hd => digitVal_digit hb upper (hds d hd)).trans
    List.filterMap_some

theorem readNumber_text {base : Nat} (hb : base = 10 ∨ base = 16) (upper neg : Bool) {ds : List Nat}
    (hne : ds ≠ []) (hds : ∀ d ∈ ds, d < base) (m n : Nat) :
    readNumber base (spaces m ++ (signText neg ++ (ds.map (digit upper) ++ spaces n))) =
      some (if neg then -((ds.foldl (fun a d => base*a+d) 0 : Nat) : Int)
        else ((ds.foldl (fun a d => base*a+d) 0 : Nat) : Int)) := by
  have hread := digits_read hb upper hds n
  obtain ⟨d,ds',hcons⟩ := List.exists_cons_of_ne_nil hne
  have hdig := digitVal_digit hb upper (hds d (hcons ▸ .head _))
  have hspace : digit upper d ≠ ch ' ' := fun h => by
    rw [h,(digitVal_other hb).1] at hdig
    cases hdig
  have hminus : digit upper d ≠ ch '-' := fun h => by
    rw [h,(digitVal_other hb).2] at hdig
    cases hdig
  have hhead : ds.map (digit upper) ++ spaces n =
      digit upper d::(ds'.map (digit upper) ++ spaces n) := by rw [hcons];rfl
  rw [readNumber]
  simp only [dropWhile_spaces]
  cases neg
  · have hdrop : (signText false ++ (ds.map (digit upper) ++ spaces n)).dropWhile
        (fun b => b == ch ' ') = ds.map (digit upper) ++ spaces n := by
      rw [hhead]
      exact List.dropWhile_cons_of_neg (by simpa using hspace)
    have hno : ((ds.map (digit upper) ++ spaces n).head? == some (ch '-')) = false := by
      rw [hhead]
      simpa using hminus
    simp only [hdrop,hno,Bool.false_eq_true,if_false,hread,if_neg hne]
  · have hdrop : (signText true ++ (ds.map (digit upper) ++ spaces n)).dropWhile
        (fun b => b == ch ' ') = ch '-'::(ds.map (digit upper) ++ spaces n) :=
      List.dropWhile_cons_of_neg (by decide)
    simp only [hdrop,List.head?_cons,beq_self_eq_true,if_true,List.tail_cons,hread,if_neg hne]

theorem digitsOf_ne_nil (base n : Nat) : digitsOf base n ≠ [] := by
  unfold digitsOf
  split
  case isTrue => exact List.cons_ne_nil _ _
  case isFalse h0 =>
    exact fun h => h0 (Nat.digits_eq_nil_iff_eq_zero.mp (List.reverse_eq_nil_iff.mp h))

theorem zeros_digits (upper : Bool) (k : Nat) : zeros k = (List.replicate k 0).map (digit upper) := by
  rw [List.map_replicate]
  cases upper
  all_goals rfl

theorem foldl_zeros (base k : Nat) (ds : List Nat) :
    (List.replicate k 0 ++ ds).foldl (fun a d => base*a+d) 0 =
      ds.foldl (fun a d => base*a+d) 0 := by
  induction k with
  | zero => rfl
  | succ k ih => exact ih

theorem readNumber_num (flags : List Flag) (width : Nat) (l : Bool) (conv : IntConv)
    (v : BitVec 32) :
    readNumber conv.base (Piece.num flags width l conv v).text = some (conv.value v) := by
  have hb : conv.base = 10 ∨ conv.base = 16 := by cases conv <;> decide
  have hlt := digitsOf_lt (show 1 < conv.base by omega) (conv.value v).natAbs
  have hne := digitsOf_ne_nil conv.base (conv.value v).natAbs
  have hval := foldl_digitsOf conv.base (conv.value v).natAbs
  have hsigned : (if conv.signed && v.msb then -((conv.value v).natAbs : Int)
      else ((conv.value v).natAbs : Int)) = conv.value v := by
    have hneg := value_neg conv v
    split
    case isTrue h =>
      rw [h,decide_eq_true_eq] at hneg
      omega
    case isFalse h =>
      rw [Bool.not_eq_true] at h
      rw [h,decide_eq_false_iff_not] at hneg
      omega
  rw [Piece.text,sign_eq,Piece.digits,numeral]
  generalize digitsOf conv.base (conv.value v).natAbs = ds at *
  have hread := readNumber_text hb (conv == .X) (conv.signed && v.msb) hne hlt
  unfold number
  split
  · -- zeros ahead of the digits are digits too
    have hlt' : ∀ d ∈ List.replicate (width-(signText (conv.signed && v.msb) ++
        ds.map (digit (conv == .X))).length) 0 ++ ds, d < conv.base := by
      intro d hd
      rcases List.mem_append.mp hd with hd | hd
      · rw [List.eq_of_mem_replicate hd]
        omega
      · exact hlt d hd
    have hread' := readNumber_text hb (conv == .X) (conv.signed && v.msb)
      (List.append_ne_nil_of_right_ne_nil _ hne) hlt' 0 0
    rw [foldl_zeros,hval,hsigned,List.map_append,← zeros_digits] at hread'
    simpa [spaces] using hread'
  · unfold field
    split
    · have hright := hread 0
        (width-(signText (conv.signed && v.msb) ++ ds.map (digit (conv == .X))).length)
      rw [hval,hsigned] at hright
      simpa [spaces] using hright
    · have hleft := hread
        (width-(signText (conv.signed && v.msb) ++ ds.map (digit (conv == .X))).length) 0
      rw [hval,hsigned] at hleft
      simpa [spaces] using hleft

/-- As long as the characters can be counted in an `int`, `bench_printf` puts out what the
standard prescribes and returns how much that is, and every number in it reads back. -/
theorem printf_prescribed (ps : List Piece) (h : (prescribed ps).length ≤ 2147483647) :
    benchPrintf (format ps) (arguments ps) =
      some (prescribed ps,((prescribed ps).length : Int)) ∧
    ∀ flags width l conv v, Piece.num flags width l conv v ∈ ps →
      readNumber conv.base (Piece.num flags width l conv v).text = some (conv.value v) := by
  have hrun := @vprintf_pieces ps 0 (by omega)
  rw [Nat.zero_add] at hrun
  exact ⟨hrun,fun flags width l conv v _ => readNumber_num flags width l conv v⟩

theorem printf_prescribed_intMin :
    benchPrintf ("%-5s%%%012ld".toList.map ch) [.str none,.long 0x80000000#32] =
      some ("(null)%-02147483648".toList.map ch,19) := by
  have hfmt : format [.str 1 5 none,.percent,.num [.zero] 12 true .d 0x80000000#32] =
      "%-5s%%%012ld".toList.map ch := by decide
  have htext : prescribed [.str 1 5 none,.percent,.num [.zero] 12 true .d 0x80000000#32] =
      "(null)%-02147483648".toList.map ch := by decide
  have hrun := (printf_prescribed [.str 1 5 none,.percent,.num [.zero] 12 true .d 0x80000000#32]
    (by rw [htext];decide)).1
  rw [hfmt,htext] at hrun
  exact hrun

/-- A width that is no `int` has no behaviour. -/
theorem printf_wide :
    benchPrintf (format [.num [] 2147483648 false .d 0]) (arguments [.num [] 2147483648 false .d 0]) =
      none ∧ (prescribed [.num [] 2147483648 false .d 0]).length = 2147483648 := by
  constructor
  · have hfmt : format [.num [] 2147483648 false .d 0] = ch '%'::"2147483648d".toList.map ch := by
      decide
    have hdir : directive ("2147483648d".toList.map ch) = none := by decide
    rw [benchPrintf,hfmt,vprintf,if_neg (by decide),if_neg (by simp)]
    split
    case h_1 => rfl
    case h_2 hsome => cases hdir.symm.trans hsome
  · rw [prescribed,List.flatMap_singleton,Piece.text,number_length]
    decide

end BenchIo

end Rvntt
