import Rvntt.Datapath
import Rvntt.Isa
set_option autoImplicit false

/-!
`rvntt_alu`, `rvntt_bitmanip` and `rvntt_branch` compute what the specification says.
-/

namespace Rvntt

open Isa (RegOp UnOp Cond shamt)

inductive UnitOp where
  | alu (op : AluOp)
  | bm (op : BmOp)
  deriving DecidableEq, Repr

def UnitOp.run (u : UnitOp) (a b : Word) : Word :=
  match u with
  | .alu op => Rvntt.alu op a b
  | .bm op => bitmanip op a b

def regUnit : RegOp → UnitOp
  | .add => .alu .add
  | .sub => .alu .sub
  | .sll => .alu .sll
  | .slt => .alu .slt
  | .sltu => .alu .sltu
  | .xor => .alu .xor
  | .srl => .alu .srl
  | .sra => .alu .sra
  | .or => .alu .or
  | .and => .alu .and
  | .sh1add => .bm .sh1add
  | .sh2add => .bm .sh2add
  | .sh3add => .bm .sh3add
  | .andn => .bm .andn
  | .orn => .bm .orn
  | .xnor => .bm .xnor
  | .min => .bm .min
  | .minu => .bm .minu
  | .max => .bm .max
  | .maxu => .bm .maxu
  | .rol => .bm .rol
  | .ror => .bm .ror
  | .bset => .bm .bset
  | .bclr => .bm .bclr
  | .bext => .bm .bext
  | .binv => .bm .binv
  | .pack => .bm .pack
  | .packh => .bm .packh
  | .czeroEqz => .bm .czeqz
  | .czeroNez => .bm .cznez

/-! ### Shifts and comparisons -/

theorem shamt_lt (b : Word) : shamt b < 32 := Nat.mod_lt _ (by decide)

theorem shamt_toNat (b : Word) : (b.extractLsb' 0 5).toNat = shamt b := by
  rw [Bits.extract_toNat,Nat.pow_zero,Nat.div_one]
  rfl

theorem sll_eval (a b : Word) : alu .sll a b = RegOp.sll.eval a b := by
  refine BitVec.eq_of_toNat_eq ?_
  simp only [alu,RegOp.eval,BitVec.shiftLeft_eq',shamt_toNat,BitVec.toNat_shiftLeft,
    Nat.shiftLeft_eq,BitVec.toNat_ofNat]

theorem srl_eval (a b : Word) : alu .srl a b = RegOp.srl.eval a b := by
  refine BitVec.eq_of_toNat_eq ?_
  have hlt : a.toNat/2^shamt b < 2^32 := Nat.lt_of_le_of_lt (Nat.div_le_self _ _) a.isLt
  simp only [alu,RegOp.eval,BitVec.ushiftRight_eq',shamt_toNat,BitVec.toNat_ushiftRight,
    Nat.shiftRight_eq_div_pow,BitVec.toNat_ofNat,Nat.mod_eq_of_lt hlt]

theorem sra_eval (a b : Word) : alu .sra a b = RegOp.sra.eval a b := by
  have h : a.toInt/2^shamt b = (a.sshiftRight (shamt b)).toInt := by
    rw [BitVec.toInt_sshiftRight,Int.shiftRight_eq_div_pow]
    rfl
  simp only [alu,RegOp.eval,shamt_toNat,h,BitVec.ofInt_toInt]

theorem flag_eq (p : Prop) [Decidable p] : flag (decide p) = Isa.flag p := by
  by_cases h : p <;> simp [flag,Isa.flag,h]

theorem slt_eval (a b : Word) : alu .slt a b = RegOp.slt.eval a b := flag_eq _

theorem sltu_eval (a b : Word) : alu .sltu a b = RegOp.sltu.eval a b := flag_eq _

theorem shadd_eval (k : Nat) (a b : Word) :
    (a <<< k)+b = BitVec.ofNat 32 (2^k*a.toNat+b.toNat) := by
  refine BitVec.eq_of_toNat_eq ?_
  rw [BitVec.toNat_add,BitVec.toNat_shiftLeft,Nat.shiftLeft_eq,BitVec.toNat_ofNat,
    Nat.mod_add_mod,Nat.mul_comm]

/-! ### Rotates -/

theorem neg_shamt_toNat (b : Word) :
    ((0 : BitVec 5)-b.extractLsb' 0 5).toNat = (32-shamt b) % 32 := by
  rw [BitVec.toNat_sub,shamt_toNat]
  simp

theorem rotate_halves (a : Word) (f g : Word → Nat → Word) {s : Nat} (hs : s < 32)
    (h0 : f a 0 ||| g a 0 = f a 0 ||| g a 32) :
    f a s ||| g a ((32-s) % 32) = f a s ||| g a (32-s) := by
  rcases Nat.eq_zero_or_pos s with rfl | hp
  · exact h0
  · rw [Nat.mod_eq_of_lt (by omega)]

theorem rol_eval (a b : Word) : bitmanip .rol a b = RegOp.rol.eval a b := by
  simp only [bitmanip,RegOp.eval,BitVec.shiftLeft_eq',BitVec.ushiftRight_eq',shamt_toNat,
    neg_shamt_toNat,BitVec.rotateLeft_def,Nat.mod_eq_of_lt (shamt_lt b)]
  exact rotate_halves a (fun x k => x <<< k) (fun x k => x >>> k) (shamt_lt b)
    (by simp [BitVec.ushiftRight_eq_zero])

theorem ror_eval (a b : Word) : bitmanip .ror a b = RegOp.ror.eval a b := by
  simp only [bitmanip,RegOp.eval,BitVec.shiftLeft_eq',BitVec.ushiftRight_eq',shamt_toNat,
    neg_shamt_toNat,BitVec.rotateRight_def,Nat.mod_eq_of_lt (shamt_lt b)]
  exact rotate_halves a (fun x k => x >>> k) (fun x k => x <<< k) (shamt_lt b) (by simp)

/-! ### Single bits -/

theorem bitmask_bit (b : Word) (i : Nat) (hi : i < 32) :
    ((1 : Word) <<< b.extractLsb' 0 5).getLsbD i = (i == shamt b) := by
  have hs := shamt_lt b
  rw [BitVec.shiftLeft_eq',shamt_toNat,BitVec.getLsbD_shiftLeft,show (1 : Word) = 1#32 from rfl,
    BitVec.getLsbD_one,Bool.eq_iff_iff]
  simp only [Bool.and_eq_true,Bool.not_eq_true',decide_eq_true_iff,decide_eq_false_iff_not,
    beq_iff_eq]
  omega

theorem bset_eval (a b : Word) : bitmanip .bset a b = RegOp.bset.eval a b := by
  refine BitVec.eq_of_getLsbD_eq fun i hi => ?_
  simp only [bitmanip,RegOp.eval,Isa.bits,BitVec.getLsbD_or,bitmask_bit b i hi,Bits.getLsbD_ofFn,
    hi,decide_true,Bool.true_and]
  exact Bool.or_comm _ _

theorem bclr_eval (a b : Word) : bitmanip .bclr a b = RegOp.bclr.eval a b := by
  refine BitVec.eq_of_getLsbD_eq fun i hi => ?_
  simp only [bitmanip,RegOp.eval,Isa.bits,BitVec.getLsbD_and,BitVec.getLsbD_not,bitmask_bit b i hi,
    Bits.getLsbD_ofFn,hi,decide_true,Bool.true_and]
  exact Bool.and_comm _ _

theorem binv_eval (a b : Word) : bitmanip .binv a b = RegOp.binv.eval a b := by
  refine BitVec.eq_of_getLsbD_eq fun i hi => ?_
  simp only [bitmanip,RegOp.eval,Isa.bits,BitVec.getLsbD_xor,bitmask_bit b i hi,Bits.getLsbD_ofFn,
    hi,decide_true,Bool.true_and]
  exact Bool.xor_comm _ _

theorem bext_eval (a b : Word) : bitmanip .bext a b = RegOp.bext.eval a b := by
  simp only [bitmanip,RegOp.eval,shamt_toNat,flag,Isa.flag]

/-! ### Halves and bytes -/

theorem low_toNat (a : Word) (n : Nat) : (a.extractLsb' 0 n).toNat = a.toNat % 2^n := by
  rw [Bits.extract_toNat,Nat.pow_zero,Nat.div_one]

theorem pack_eval (a b : Word) : bitmanip .pack a b = RegOp.pack.eval a b := by
  refine BitVec.eq_of_toNat_eq ?_
  have hlt : 2^16*(b.toNat % 2^16)+a.toNat % 2^16 < 2^32 := by omega
  simp only [bitmanip,RegOp.eval]
  rw [Bits.append_toNat,low_toNat,low_toNat,BitVec.toNat_ofNat,Nat.mod_eq_of_lt hlt]

theorem packh_eval (a b : Word) : bitmanip .packh a b = RegOp.packh.eval a b := by
  refine BitVec.eq_of_toNat_eq ?_
  have hlt : 2^8*(b.toNat % 2^8)+a.toNat % 2^8 < 2^32 := by omega
  simp only [bitmanip,RegOp.eval]
  rw [BitVec.toNat_setWidth,Bits.append_toNat,low_toNat,low_toNat,BitVec.toNat_ofNat]

theorem run_regUnit (op : RegOp) (a b : Word) : (regUnit op).run a b = op.eval a b := by
  cases op with
  | sll => exact sll_eval a b
  | slt => exact slt_eval a b
  | sltu => exact sltu_eval a b
  | srl => exact srl_eval a b
  | sra => exact sra_eval a b
  | sh1add => exact shadd_eval 1 a b
  | sh2add => exact shadd_eval 2 a b
  | sh3add => exact shadd_eval 3 a b
  | min => simp [regUnit,UnitOp.run,bitmanip,RegOp.eval,BitVec.slt_eq_decide]
  | minu => simp [regUnit,UnitOp.run,bitmanip,RegOp.eval,BitVec.ult]
  | max => simp [regUnit,UnitOp.run,bitmanip,RegOp.eval,BitVec.slt_eq_decide]
  | maxu => simp [regUnit,UnitOp.run,bitmanip,RegOp.eval,BitVec.ult]
  | rol => exact rol_eval a b
  | ror => exact ror_eval a b
  | bset => exact bset_eval a b
  | bclr => exact bclr_eval a b
  | bext => exact bext_eval a b
  | binv => exact binv_eval a b
  | pack => exact pack_eval a b
  | packh => exact packh_eval a b
  | _ => rfl

/-! ### Counts -/

theorem leading_succ (p : Nat → Bool) (n : Nat) :
    ((List.range (n+1)).takeWhile fun k => !p (n-k)).length =
      if p n then 0 else ((List.range n).takeWhile fun k => !p (n-1-k)).length+1 := by
  rw [List.range_succ_eq_map,List.takeWhile_cons]
  cases h : p n with
  | true => simp
  | false =>
    simp only [Bool.not_false,if_true,List.length_cons,List.takeWhile_map,
      List.length_map,Bool.false_eq_true,if_false]
    congr 3
    funext k
    simp [Nat.sub_sub,Nat.add_comm]

/-- The last write of the encoder is the highest set bit's. -/
theorem clz_fold (p : Nat → Bool) {n : Nat} (hn : n ≤ 32) :
    (List.range n).foldl (fun v i => if p i then BitVec.ofNat 6 (31-i) else v) (32 : BitVec 6) =
      BitVec.ofNat 6 (32-n+((List.range n).takeWhile fun k => !p (n-1-k)).length) := by
  induction n with
  | zero => rfl
  | succ n ih =>
    rw [List.range_succ,List.foldl_append,List.foldl_cons,List.foldl_nil,ih (by omega),
      ← List.range_succ]
    simp only [Nat.add_sub_cancel]
    rw [leading_succ]
    cases p n with
    | true =>
      rw [if_pos rfl,if_pos rfl]
      exact congrArg _ (by omega)
    | false =>
      rw [if_neg Bool.false_ne_true,if_neg Bool.false_ne_true]
      exact congrArg _ (by omega)

theorem clz_eval (a b : Word) : bitmanip .clz a b = UnOp.clz.eval a := by
  refine BitVec.eq_of_toNat_eq ?_
  have hle := (List.takeWhile_sublist (l := List.range 32) fun k => !a.getLsbD (31-k)).length_le
  rw [List.length_range] at hle
  simp only [bitmanip,UnOp.eval,clz]
  rw [clz_fold a.getLsbD (Nat.le_refl 32),BitVec.toNat_setWidth,BitVec.toNat_ofNat,
    BitVec.toNat_ofNat]
  simp only [Nat.sub_self,Nat.zero_add,Nat.add_one_sub_one]
  omega

theorem ctz_fold (p : Nat → Bool) (s n : Nat) :
    (List.range' s n).reverse.foldl (fun v i => if p i then BitVec.ofNat 6 i else v)
        (BitVec.ofNat 6 (s+n)) =
      BitVec.ofNat 6 (s+((List.range' s n).takeWhile fun k => !p k).length) := by
  induction n generalizing s with
  | zero => rfl
  | succ n ih =>
    have h := ih (s+1)
    rw [Nat.add_assoc,Nat.add_comm 1 n] at h
    rw [List.range'_succ,List.reverse_cons,List.foldl_append,h,List.takeWhile_cons]
    cases hp : p s with
    | true => simp [hp]
    | false => simp [hp,Nat.add_assoc,Nat.add_comm 1]

theorem ctz_eval (a b : Word) : bitmanip .ctz a b = UnOp.ctz.eval a := by
  refine BitVec.eq_of_toNat_eq ?_
  have hle := (List.takeWhile_sublist (l := List.range 32) fun k => !a.getLsbD k).length_le
  rw [List.length_range] at hle
  have h := ctz_fold a.getLsbD 0 32
  rw [← List.range_eq_range',Nat.zero_add,Nat.zero_add] at h
  simp only [bitmanip,UnOp.eval,ctz]
  rw [show (32 : BitVec 6) = BitVec.ofNat 6 32 from rfl,h,BitVec.toNat_setWidth,
    BitVec.toNat_ofNat,BitVec.toNat_ofNat]
  omega

theorem cpop_fold (p : Nat → Bool) (l : List Nat) (v : BitVec 6) :
    l.foldl (fun v i => v+(BitVec.ofBool (p i)).setWidth 6) v = v+BitVec.ofNat 6 (l.countP p) := by
  induction l generalizing v with
  | nil => simp
  | cons i l ih =>
    rw [List.foldl_cons,ih,List.countP_cons,BitVec.add_assoc]
    cases p i with
    | true => rw [if_pos rfl,Nat.add_comm,BitVec.ofNat_add]; rfl
    | false => simp

theorem cpop_eval (a b : Word) : bitmanip .cpop a b = UnOp.cpop.eval a := by
  refine BitVec.eq_of_toNat_eq ?_
  have hle := List.countP_le_length (p := a.getLsbD) (l := List.range 32)
  rw [List.length_range] at hle
  simp only [bitmanip,UnOp.eval,cpop]
  rw [cpop_fold a.getLsbD,show (0 : BitVec 6) = 0#6 from rfl,BitVec.zero_add,BitVec.toNat_setWidth,BitVec.toNat_ofNat,
    BitVec.toNat_ofNat]
  change (List.range 32).countP a.getLsbD % 2^6 % 2^32 = (List.range 32).countP a.getLsbD % 2^32
  omega

/-! ### Moving bits -/

theorem low_setWidth (a : Word) (n : Nat) : a.extractLsb' 0 n = a.setWidth n := by
  refine BitVec.eq_of_getLsbD_eq fun i hi => ?_
  simp [hi]

theorem sextb_eval (a b : Word) : bitmanip .sextb a b = UnOp.sextb.eval a := by
  simp only [bitmanip,UnOp.eval,low_setWidth]
  rfl

theorem sexth_eval (a b : Word) : bitmanip .sexth a b = UnOp.sexth.eval a := by
  simp only [bitmanip,UnOp.eval,low_setWidth]
  rfl

theorem orcByte_eq : ∀ b : BitVec 8,
    orcByte b = if (List.range 8).any b.getLsbD then 0xFF else 0 := by decide +kernel

theorem orcByte_bit (b : BitVec 8) {j : Nat} (hj : j < 8) :
    (orcByte b).getLsbD j = (List.range 8).any b.getLsbD := by
  rw [orcByte_eq]
  cases (List.range 8).any b.getLsbD with
  | false => simp
  | true =>
    have : ∀ j < 8, (0xFF : BitVec 8).getLsbD j = true := by decide
    exact this j hj

theorem four_bytes (b3 b2 b1 b0 : BitVec 8) {i : Nat} (hi : i < 32) :
    (b3 ++ b2 ++ b1 ++ b0).getLsbD i =
      (if i/8 = 0 then b0 else if i/8 = 1 then b1 else if i/8 = 2 then b2 else b3).getLsbD
        (i % 8) := by
  simp only [BitVec.getLsbD_append]
  rcases (by omega : i/8 = 0 ∨ i/8 = 1 ∨ i/8 = 2 ∨ i/8 = 3) with h | h | h | h
  · rw [if_pos h,show i % 8 = i by omega]
    simp [show i < 8 by omega]
  · rw [h,show i % 8 = i-8 by omega]
    simp [show ¬i < 8 by omega,show i-8 < 8 by omega]
  · rw [h,show i % 8 = i-8-8 by omega]
    simp [show ¬i < 8 by omega,show ¬i-8 < 8 by omega,show i-8-8 < 8 by omega]
  · rw [h,show i % 8 = i-8-8-8 by omega]
    simp [show ¬i < 8 by omega,show ¬i-8 < 8 by omega,show ¬i-8-8 < 8 by omega]

theorem orcb_eval (a b : Word) : bitmanip .orcb a b = UnOp.orcb.eval a := by
  refine BitVec.eq_of_getLsbD_eq fun i hi => ?_
  have hany : ∀ s, (List.range 8).any (a.extractLsb' s 8).getLsbD =
      (List.range 8).any fun j => a.getLsbD (s+j) := by
    intro s
    rw [Bool.eq_iff_iff]
    simp only [List.any_eq_true,List.mem_range,BitVec.getLsbD_extractLsb']
    constructor
    · rintro ⟨j,hj,h⟩
      exact ⟨j,hj,by simpa [hj] using h⟩
    · rintro ⟨j,hj,h⟩
      exact ⟨j,hj,by simpa [hj] using h⟩
  have hm : i % 8 < 8 := by omega
  simp only [bitmanip,orcb,UnOp.eval,Isa.bits,Bits.getLsbD_ofFn,hi,decide_true,Bool.true_and]
  rw [four_bytes _ _ _ _ hi]
  rcases (by omega : i/8 = 0 ∨ i/8 = 1 ∨ i/8 = 2 ∨ i/8 = 3) with h | h | h | h
  all_goals
    rw [h]
    simp only [Nat.reduceEqDiff,if_true,if_false,Nat.reduceMul]
    rw [orcByte_bit _ hm,hany]

theorem rev8_eval (a b : Word) : bitmanip .rev8 a b = UnOp.rev8.eval a := by
  refine BitVec.eq_of_getLsbD_eq fun i hi => ?_
  have hm : i % 8 < 8 := by omega
  simp only [bitmanip,rev8,UnOp.eval,Isa.bits,Bits.getLsbD_ofFn,hi,decide_true,Bool.true_and]
  rw [four_bytes _ _ _ _ hi]
  rcases (by omega : i/8 = 0 ∨ i/8 = 1 ∨ i/8 = 2 ∨ i/8 = 3) with h | h | h | h
  all_goals
    rw [h]
    simp [hm]

theorem ofFn_eq (f g : Nat → Bool) (h : ∀ i < 32, f i = g i) : Bits.ofFn 32 f = Isa.bits g := by
  refine BitVec.eq_of_getLsbD_eq fun i hi => ?_
  rw [Isa.bits,Bits.getLsbD_ofFn,Bits.getLsbD_ofFn,h i hi]

theorem brev8_eval (a b : Word) : bitmanip .brev8 a b = UnOp.brev8.eval a := by
  simp only [bitmanip,brev8,UnOp.eval]
  refine ofFn_eq _ _ fun i _ => ?_
  rw [Nat.mul_comm]

theorem zip_eval (a b : Word) : bitmanip .zip a b = UnOp.zip.eval a := by
  simp only [bitmanip,zip,UnOp.eval]
  refine ofFn_eq _ _ fun i _ => ?_
  rcases Nat.mod_two_eq_zero_or_one i with h | h <;> simp [h]

theorem unzip_eval (a b : Word) : bitmanip .unzip a b = UnOp.unzip.eval a := by
  simp only [bitmanip,unzip,UnOp.eval]
  refine ofFn_eq _ _ fun i hi => ?_
  by_cases h : i < 16
  · rw [if_pos h,Nat.mod_eq_of_lt h,Nat.div_eq_of_lt h,Nat.add_zero]
  · rw [if_neg h,show i % 16 = i-16 by omega,show i/16 = 1 by omega]

def unOp : UnOp → BmOp
  | .clz => .clz
  | .ctz => .ctz
  | .cpop => .cpop
  | .sextb => .sextb
  | .sexth => .sexth
  | .orcb => .orcb
  | .rev8 => .rev8
  | .brev8 => .brev8
  | .zip => .zip
  | .unzip => .unzip

theorem run_unOp (op : UnOp) (a b : Word) : bitmanip (unOp op) a b = op.eval a := by
  cases op with
  | clz => exact clz_eval a b
  | ctz => exact ctz_eval a b
  | cpop => exact cpop_eval a b
  | sextb => exact sextb_eval a b
  | sexth => exact sexth_eval a b
  | orcb => exact orcb_eval a b
  | rev8 => exact rev8_eval a b
  | brev8 => exact brev8_eval a b
  | zip => exact zip_eval a b
  | unzip => exact unzip_eval a b

/-! ### Branches -/

theorem branchTaken_eval (c : Cond) (a b : Word) : branchTaken c.funct3 a b = c.holds a b := by
  cases c with
  | eq => rfl
  | ne => exact (decide_not (p := a = b)).symm
  | lt => rfl
  | ge => exact (decide_not (p := a.toInt < b.toInt)).symm.trans (by simp [Cond.holds])
  | ltu => rfl
  | geu => exact (decide_not (p := a.toNat < b.toNat)).symm.trans (by simp [Cond.holds])

end Rvntt
