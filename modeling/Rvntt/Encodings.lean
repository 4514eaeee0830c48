import Rvntt.Decode
import Rvntt.Operations
set_option autoImplicit false

/-!
The decoder on the encodings of the specification: it reads the fields where they are,
puts the immediates together, and rejects every other word.
-/

namespace Rvntt

open Isa

/-! ### Fields -/

section fields

variable (f7 : BitVec 7) (rs2 rs1 : BitVec 5) (f3 : BitVec 3) (rd : BitVec 5) (op : BitVec 7)

@[simp] theorem opcode_rType : opcode (rType f7 rs2 rs1 f3 rd op) = op :=
  Bits.extract_low (f7 ++ rs2 ++ rs1 ++ f3 ++ rd) op

@[simp] theorem rdField_rType : rdField (rType f7 rs2 rs1 f3 rd op) = rd :=
  (Bits.extract_high (f7 ++ rs2 ++ rs1 ++ f3 ++ rd) op 0 5).trans (Bits.extract_low _ rd)

@[simp] theorem funct3_rType : funct3 (rType f7 rs2 rs1 f3 rd op) = f3 :=
  calc
    _ = (f7 ++ rs2 ++ rs1 ++ f3 ++ rd).extractLsb' 5 3 := Bits.extract_high _ op 5 3
    _ = (f7 ++ rs2 ++ rs1 ++ f3).extractLsb' 0 3 := Bits.extract_high _ rd 0 3
    _ = f3 := Bits.extract_low _ f3

@[simp] theorem rs1Field_rType : rs1Field (rType f7 rs2 rs1 f3 rd op) = rs1 :=
  calc
    _ = (f7 ++ rs2 ++ rs1 ++ f3 ++ rd).extractLsb' 8 5 := Bits.extract_high _ op 8 5
    _ = (f7 ++ rs2 ++ rs1 ++ f3).extractLsb' 3 5 := Bits.extract_high _ rd 3 5
    _ = (f7 ++ rs2 ++ rs1).extractLsb' 0 5 := Bits.extract_high _ f3 0 5
    _ = rs1 := Bits.extract_low _ rs1

@[simp] theorem rs2Field_rType : rs2Field (rType f7 rs2 rs1 f3 rd op) = rs2 :=
  calc
    _ = (f7 ++ rs2 ++ rs1 ++ f3 ++ rd).extractLsb' 13 5 := Bits.extract_high _ op 13 5
    _ = (f7 ++ rs2 ++ rs1 ++ f3).extractLsb' 8 5 := Bits.extract_high _ rd 8 5
    _ = (f7 ++ rs2 ++ rs1).extractLsb' 5 5 := Bits.extract_high _ f3 5 5
    _ = (f7 ++ rs2).extractLsb' 0 5 := Bits.extract_high _ rs1 0 5
    _ = rs2 := Bits.extract_low _ rs2

@[simp] theorem funct7_rType : funct7 (rType f7 rs2 rs1 f3 rd op) = f7 :=
  calc
    _ = (f7 ++ rs2 ++ rs1 ++ f3 ++ rd).extractLsb' 18 7 := Bits.extract_high _ op 18 7
    _ = (f7 ++ rs2 ++ rs1 ++ f3).extractLsb' 13 7 := Bits.extract_high _ rd 13 7
    _ = (f7 ++ rs2 ++ rs1).extractLsb' 10 7 := Bits.extract_high _ f3 10 7
    _ = (f7 ++ rs2).extractLsb' 5 7 := Bits.extract_high _ rs1 5 7
    _ = f7.extractLsb' 0 7 := Bits.extract_high _ rs2 0 7
    _ = f7 := BitVec.extractLsb'_eq_self

end fields

theorem rType_fields (w : Word) :
    rType (funct7 w) (rs2Field w) (rs1Field w) (funct3 w) (rdField w) (opcode w) = w := by
  have h1 : funct7 w ++ rs2Field w = w.extractLsb' 20 12 := Bits.extract_join w 20 7 5
  have h2 : w.extractLsb' 20 12 ++ rs1Field w = w.extractLsb' 15 17 := Bits.extract_join w 15 12 5
  have h3 : w.extractLsb' 15 17 ++ funct3 w = w.extractLsb' 12 20 := Bits.extract_join w 12 17 3
  have h4 : w.extractLsb' 12 20 ++ rdField w = w.extractLsb' 7 25 := Bits.extract_join w 7 20 5
  have h5 : w.extractLsb' 7 25 ++ opcode w = w.extractLsb' 0 32 := Bits.extract_join w 0 25 7
  rw [rType,h1,h2,h3,h4,h5]
  exact BitVec.extractLsb'_eq_self

theorem iType_eq (imm : BitVec 12) (rs1 : BitVec 5) (f3 : BitVec 3) (rd : BitVec 5)
    (op : BitVec 7) : iType imm rs1 f3 rd op =
      rType (imm.extractLsb' 5 7) (imm.extractLsb' 0 5) rs1 f3 rd op := by
  have h : imm.extractLsb' 5 7 ++ imm.extractLsb' 0 5 = imm.extractLsb' 0 12 :=
    Bits.extract_join imm 0 7 5
  rw [rType,h,BitVec.extractLsb'_eq_self]
  rfl

@[simp] theorem funct12_iType (imm : BitVec 12) (rs1 : BitVec 5) (f3 : BitVec 3) (rd : BitVec 5)
    (op : BitVec 7) : funct12 (iType imm rs1 f3 rd op) = imm :=
  calc
    _ = (imm ++ rs1 ++ f3 ++ rd).extractLsb' 13 12 := Bits.extract_high _ op 13 12
    _ = (imm ++ rs1 ++ f3).extractLsb' 8 12 := Bits.extract_high _ rd 8 12
    _ = (imm ++ rs1).extractLsb' 5 12 := Bits.extract_high _ f3 5 12
    _ = imm.extractLsb' 0 12 := Bits.extract_high _ rs1 0 12
    _ = imm := BitVec.extractLsb'_eq_self

theorem iType_fields (w : Word) :
    iType (funct12 w) (rs1Field w) (funct3 w) (rdField w) (opcode w) = w := by
  have h7 : (funct12 w).extractLsb' 5 7 = funct7 w := Bits.extract_extract w 20 12 5 7 (by omega)
  have h2 : (funct12 w).extractLsb' 0 5 = rs2Field w := Bits.extract_extract w 20 12 0 5 (by omega)
  rw [iType_eq,h7,h2]
  exact rType_fields w

theorem funct12_eq (w : Word) : funct12 w = funct7 w ++ rs2Field w := (Bits.extract_join w 20 7 5).symm

theorem sType_fields (w : Word) :
    sType (funct7 w ++ rdField w) (rs2Field w) (rs1Field w) (funct3 w) (opcode w) = w := by
  have h7 : (funct7 w ++ rdField w).extractLsb' 5 7 = funct7 w :=
    (Bits.extract_high _ (rdField w) 0 7).trans BitVec.extractLsb'_eq_self
  rw [sType,h7,Bits.extract_low (funct7 w) (rdField w)]
  exact rType_fields w

/-! ### The upper twenty bits -/

def upper (w : Word) : BitVec 20 := w.extractLsb' 12 20

@[simp] theorem opcode_uType (imm : BitVec 20) (rd : BitVec 5) (op : BitVec 7) :
    opcode (uType imm rd op) = op := Bits.extract_low (imm ++ rd) op

@[simp] theorem rdField_uType (imm : BitVec 20) (rd : BitVec 5) (op : BitVec 7) :
    rdField (uType imm rd op) = rd :=
  (Bits.extract_high (imm ++ rd) op 0 5).trans (Bits.extract_low imm rd)

@[simp] theorem upper_uType (imm : BitVec 20) (rd : BitVec 5) (op : BitVec 7) :
    upper (uType imm rd op) = imm :=
  calc
    _ = (imm ++ rd).extractLsb' 5 20 := Bits.extract_high (imm ++ rd) op 5 20
    _ = imm.extractLsb' 0 20 := Bits.extract_high imm rd 0 20
    _ = imm := BitVec.extractLsb'_eq_self

theorem uType_fields (w : Word) : uType (upper w) (rdField w) (opcode w) = w := by
  have h4 : upper w ++ rdField w = w.extractLsb' 7 25 := Bits.extract_join w 7 20 5
  have h5 : w.extractLsb' 7 25 ++ opcode w = w.extractLsb' 0 32 := Bits.extract_join w 0 25 7
  rw [uType,h4,h5]
  exact BitVec.extractLsb'_eq_self

/-! ### Immediates -/

theorem offset_eq {n : Nat} (x : BitVec n) : (x ++ (0 : BitVec 1)).signExtend 32 = offset x := by
  have h : (x ++ 0#1).toInt = 2*x.toInt := BitVec.toInt_append_zero
  rw [BitVec.signExtend,offset]
  exact congrArg _ h

theorem immgen_i (w : Word) : immgen w .i = simm (funct12 w) := rfl

theorem immgen_s (w : Word) : immgen w .s = simm (funct7 w ++ rdField w) := rfl

theorem immgen_u (w : Word) : immgen w .u = uimm (upper w) := by
  refine BitVec.eq_of_toNat_eq ?_
  have hlt := (upper w).isLt
  have h : (upper w ++ (0 : BitVec 12)).toNat = 2^12*(upper w).toNat+0 := Bits.append_toNat _ _
  rw [uimm,BitVec.toNat_ofNat,Nat.mod_eq_of_lt (by omega)]
  exact h

def offsetB (f7 : BitVec 7) (rd : BitVec 5) : BitVec 12 :=
  f7.extractLsb' 6 1 ++ rd.extractLsb' 0 1 ++ f7.extractLsb' 0 6 ++ rd.extractLsb' 1 4

theorem immgen_b (w : Word) : immgen w .b = offset (offsetB (funct7 w) (rdField w)) := by
  have h1 : (funct7 w).extractLsb' 6 1 = w.extractLsb' 31 1 :=
    Bits.extract_extract w 25 7 6 1 (by omega)
  have h2 : (rdField w).extractLsb' 0 1 = w.extractLsb' 7 1 :=
    Bits.extract_extract w 7 5 0 1 (by omega)
  have h3 : (funct7 w).extractLsb' 0 6 = w.extractLsb' 25 6 :=
    Bits.extract_extract w 25 7 0 6 (by omega)
  have h4 : (rdField w).extractLsb' 1 4 = w.extractLsb' 8 4 :=
    Bits.extract_extract w 7 5 1 4 (by omega)
  rw [offsetB,h1,h2,h3,h4,← offset_eq]
  rfl

def offsetJ (u : BitVec 20) : BitVec 20 :=
  u.extractLsb' 19 1 ++ u.extractLsb' 0 8 ++ u.extractLsb' 8 1 ++ u.extractLsb' 9 10

theorem immgen_j (w : Word) : immgen w .j = offset (offsetJ (upper w)) := by
  have h1 : (upper w).extractLsb' 19 1 = w.extractLsb' 31 1 :=
    Bits.extract_extract w 12 20 19 1 (by omega)
  have h2 : (upper w).extractLsb' 0 8 = w.extractLsb' 12 8 :=
    Bits.extract_extract w 12 20 0 8 (by omega)
  have h3 : (upper w).extractLsb' 8 1 = w.extractLsb' 20 1 :=
    Bits.extract_extract w 12 20 8 1 (by omega)
  have h4 : (upper w).extractLsb' 9 10 = w.extractLsb' 21 10 :=
    Bits.extract_extract w 12 20 9 10 (by omega)
  rw [offsetJ,h1,h2,h3,h4,← offset_eq]
  rfl

/-! The two scrambled formats are undone. -/

theorem extract_top {m n : Nat} (h : BitVec m) (l : BitVec n) :
    (h ++ l).extractLsb' (n+0) m = h :=
  (Bits.extract_high h l 0 m).trans BitVec.extractLsb'_eq_self

theorem offsetB_bType (i : BitVec 12) :
    offsetB (i.extractLsb' 11 1 ++ i.extractLsb' 4 6) (i.extractLsb' 0 4 ++ i.extractLsb' 10 1) =
      i := by
  have h1 := extract_top (i.extractLsb' 11 1) (i.extractLsb' 4 6)
  have h2 := Bits.extract_low (i.extractLsb' 0 4) (i.extractLsb' 10 1)
  have h3 := Bits.extract_low (i.extractLsb' 11 1) (i.extractLsb' 4 6)
  have h4 := extract_top (i.extractLsb' 0 4) (i.extractLsb' 10 1)
  have j1 : i.extractLsb' 11 1 ++ i.extractLsb' 10 1 = i.extractLsb' 10 2 :=
    Bits.extract_join i 10 1 1
  have j2 : i.extractLsb' 10 2 ++ i.extractLsb' 4 6 = i.extractLsb' 4 8 := Bits.extract_join i 4 2 6
  have j3 : i.extractLsb' 4 8 ++ i.extractLsb' 0 4 = i.extractLsb' 0 12 := Bits.extract_join i 0 8 4
  rw [offsetB,h1,h2,h3,h4,j1,j2,j3]
  exact BitVec.extractLsb'_eq_self

theorem bType_offsetB (f7 : BitVec 7) (rs2 rs1 : BitVec 5) (f3 : BitVec 3) (rd : BitVec 5)
    (op : BitVec 7) : bType (offsetB f7 rd) rs2 rs1 f3 op = rType f7 rs2 rs1 f3 rd op := by
  have h0 := Bits.extract_low (f7.extractLsb' 6 1 ++ rd.extractLsb' 0 1 ++ f7.extractLsb' 0 6)
    (rd.extractLsb' 1 4)
  have h4 : (offsetB f7 rd).extractLsb' 4 6 = f7.extractLsb' 0 6 :=
    (Bits.extract_high _ (rd.extractLsb' 1 4) 0 6).trans (Bits.extract_low _ (f7.extractLsb' 0 6))
  have h10 : (offsetB f7 rd).extractLsb' 10 1 = rd.extractLsb' 0 1 :=
    calc
      _ = (f7.extractLsb' 6 1 ++ rd.extractLsb' 0 1 ++ f7.extractLsb' 0 6).extractLsb' 6 1 :=
        Bits.extract_high _ (rd.extractLsb' 1 4) 6 1
      _ = (f7.extractLsb' 6 1 ++ rd.extractLsb' 0 1).extractLsb' 0 1 :=
        Bits.extract_high _ (f7.extractLsb' 0 6) 0 1
      _ = rd.extractLsb' 0 1 := Bits.extract_low _ _
  have h11 : (offsetB f7 rd).extractLsb' 11 1 = f7.extractLsb' 6 1 :=
    calc
      _ = (f7.extractLsb' 6 1 ++ rd.extractLsb' 0 1 ++ f7.extractLsb' 0 6).extractLsb' 7 1 :=
        Bits.extract_high _ (rd.extractLsb' 1 4) 7 1
      _ = (f7.extractLsb' 6 1 ++ rd.extractLsb' 0 1).extractLsb' 1 1 :=
        Bits.extract_high _ (f7.extractLsb' 0 6) 1 1
      _ = f7.extractLsb' 6 1 := extract_top _ _
  have j7 : f7.extractLsb' 6 1 ++ f7.extractLsb' 0 6 = f7.extractLsb' 0 7 := Bits.extract_join f7 0 1 6
  have jd : rd.extractLsb' 1 4 ++ rd.extractLsb' 0 1 = rd.extractLsb' 0 5 := Bits.extract_join rd 0 4 1
  rw [bType,h11,h4,h10,show (offsetB f7 rd).extractLsb' 0 4 = rd.extractLsb' 1 4 from h0,j7,jd,
    BitVec.extractLsb'_eq_self,BitVec.extractLsb'_eq_self]

def upperJ (i : BitVec 20) : BitVec 20 :=
  i.extractLsb' 19 1 ++ i.extractLsb' 0 10 ++ i.extractLsb' 10 1 ++ i.extractLsb' 11 8

theorem offsetJ_upperJ (i : BitVec 20) : offsetJ (upperJ i) = i := by
  have h0 : (upperJ i).extractLsb' 0 8 = i.extractLsb' 11 8 := Bits.extract_low _ _
  have h8 : (upperJ i).extractLsb' 8 1 = i.extractLsb' 10 1 :=
    (Bits.extract_high _ (i.extractLsb' 11 8) 0 1).trans (Bits.extract_low _ _)
  have h9 : (upperJ i).extractLsb' 9 10 = i.extractLsb' 0 10 :=
    calc
      _ = (i.extractLsb' 19 1 ++ i.extractLsb' 0 10 ++ i.extractLsb' 10 1).extractLsb' 1 10 :=
        Bits.extract_high _ (i.extractLsb' 11 8) 1 10
      _ = (i.extractLsb' 19 1 ++ i.extractLsb' 0 10).extractLsb' 0 10 :=
        Bits.extract_high _ (i.extractLsb' 10 1) 0 10
      _ = i.extractLsb' 0 10 := Bits.extract_low _ _
  have h19 : (upperJ i).extractLsb' 19 1 = i.extractLsb' 19 1 :=
    calc
      _ = (i.extractLsb' 19 1 ++ i.extractLsb' 0 10 ++ i.extractLsb' 10 1).extractLsb' 11 1 :=
        Bits.extract_high _ (i.extractLsb' 11 8) 11 1
      _ = (i.extractLsb' 19 1 ++ i.extractLsb' 0 10).extractLsb' 10 1 :=
        Bits.extract_high _ (i.extractLsb' 10 1) 10 1
      _ = i.extractLsb' 19 1 := extract_top _ _
  have j1 : i.extractLsb' 19 1 ++ i.extractLsb' 11 8 = i.extractLsb' 11 9 := Bits.extract_join i 11 1 8
  have j2 : i.extractLsb' 11 9 ++ i.extractLsb' 10 1 = i.extractLsb' 10 10 :=
    Bits.extract_join i 10 9 1
  have j3 : i.extractLsb' 10 10 ++ i.extractLsb' 0 10 = i.extractLsb' 0 20 :=
    Bits.extract_join i 0 10 10
  rw [offsetJ,h0,h8,h9,h19,j1,j2,j3]
  exact BitVec.extractLsb'_eq_self

theorem upperJ_offsetJ (u : BitVec 20) : upperJ (offsetJ u) = u := by
  have h0 : (offsetJ u).extractLsb' 0 10 = u.extractLsb' 9 10 := Bits.extract_low _ _
  have h10 : (offsetJ u).extractLsb' 10 1 = u.extractLsb' 8 1 :=
    (Bits.extract_high _ (u.extractLsb' 9 10) 0 1).trans (Bits.extract_low _ _)
  have h11 : (offsetJ u).extractLsb' 11 8 = u.extractLsb' 0 8 :=
    calc
      _ = (u.extractLsb' 19 1 ++ u.extractLsb' 0 8 ++ u.extractLsb' 8 1).extractLsb' 1 8 :=
        Bits.extract_high _ (u.extractLsb' 9 10) 1 8
      _ = (u.extractLsb' 19 1 ++ u.extractLsb' 0 8).extractLsb' 0 8 :=
        Bits.extract_high _ (u.extractLsb' 8 1) 0 8
      _ = u.extractLsb' 0 8 := Bits.extract_low _ _
  have h19 : (offsetJ u).extractLsb' 19 1 = u.extractLsb' 19 1 :=
    calc
      _ = (u.extractLsb' 19 1 ++ u.extractLsb' 0 8 ++ u.extractLsb' 8 1).extractLsb' 9 1 :=
        Bits.extract_high _ (u.extractLsb' 9 10) 9 1
      _ = (u.extractLsb' 19 1 ++ u.extractLsb' 0 8).extractLsb' 8 1 :=
        Bits.extract_high _ (u.extractLsb' 8 1) 8 1
      _ = u.extractLsb' 19 1 := extract_top _ _
  have j1 : u.extractLsb' 19 1 ++ u.extractLsb' 9 10 = u.extractLsb' 9 11 := Bits.extract_join u 9 1 10
  have j2 : u.extractLsb' 9 11 ++ u.extractLsb' 8 1 = u.extractLsb' 8 12 := Bits.extract_join u 8 11 1
  have j3 : u.extractLsb' 8 12 ++ u.extractLsb' 0 8 = u.extractLsb' 0 20 := Bits.extract_join u 0 12 8
  rw [upperJ,h0,h10,h11,h19,j1,j2,j3]
  exact BitVec.extractLsb'_eq_self

end Rvntt
