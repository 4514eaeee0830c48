import Mathlib.Data.Nat.Digits.Defs
import Rvntt.Pkg
set_option autoImplicit false

/-!
The `printf` of `bench_io.c`, on a machine whose `int` and `long` have 32 bits, and what
the C standard prescribes for the conversions it is used with.
-/

namespace Rvntt

namespace BenchIo

abbrev Byte := BitVec 8

def ch (c : Char) : Byte := BitVec.ofNat 8 c.toNat

/-- Signed arithmetic that leaves `int` has no behaviour. -/
def cint (x : Int) : Option Int :=
  if -2147483648 ≤ x ∧ x ≤ 2147483647 then some x else none

/-! ### Output -/

abbrev Out := List Byte × Int

def emitPad (n : Int) (pad : Byte) : Out := (List.replicate n.toNat pad,if 0 < n then n else 0)

def lo : List Byte := "0123456789abcdef".toList.map ch
def up : List Byte := "0123456789ABCDEF".toList.map ch

def digitLoop (digits : List Byte) (base v : Nat) : List Byte :=
  if _h : v ≠ 0 ∧ 1 < base then digits.getD (v % base) 0::digitLoop digits base (v/base) else []
  termination_by v
  decreasing_by exact Nat.div_lt_self (by omega) _h.2

def emitNum (v : BitVec 32) (base : Nat) (upper neg : Bool) (width : Int) (zero left : Bool) :
    Option Out := do
  let digits := if upper then up else lo
  let buf := (if v = 0 then [ch '0'] else []) ++ digitLoop digits base v.toNat ++
    if neg then [ch '-'] else []
  -- `buf` holds 24
  if 24 < buf.length then none
  let n : Int := buf.length
  let pad ← cint (width-n)
  let (head,n) : Out × Int :=
    if !left && zero then
      let p := emitPad pad (ch '0')
      if neg then ((ch '-'::p.1,1+p.2),n-1) else (p,n)
    else if !left then (emitPad pad (ch ' '),n)
    else (([],0),n)
  let tail : Out := if left then emitPad pad (ch ' ') else ([],0)
  -- `out` only grows, so its last value is the one to check
  let out ← cint (head.2+n+tail.2)
  return (head.1 ++ (buf.take n.toNat).reverse ++ tail.1,out)

/-! ### Reading a conversion -/

def flagLoop : List Byte → Bool × Bool → (Bool × Bool) × List Byte
  | [],f => (f,[])
  | c::l,f =>
    if c = ch '-' then flagLoop l (true,f.2)
    else if c = ch '0' then flagLoop l (f.1,true)
    else (f,c::l)

def isDigit (c : Byte) : Bool := 48 ≤ c.toNat && c.toNat ≤ 57

def widthLoop (width : Int) : List Byte → Option (Int × List Byte)
  | [] => some (width,[])
  | c::l =>
    if isDigit c then do
      let w ← cint (width*10)
      let w ← cint (w+(c.toNat-48))
      widthLoop w l
    else some (width,c::l)

def modLoop (lng : Bool) : List Byte → Bool × List Byte
  | [] => (lng,[])
  | c::l =>
    if c = ch 'l' ∨ c = ch 'h' ∨ c = ch 'z' then modLoop (lng || c != ch 'h') l
    else (lng,c::l)

inductive Arg where
  | int (v : BitVec 32)
  | long (v : BitVec 32)
  | str (s : Option (List Byte))
  | ptr (v : BitVec 32)

/-- `va_arg` of an integer; another type in the list has no behaviour. -/
def vaInteger (lng : Bool) : List Arg → Option (BitVec 32 × List Arg)
  | .int v::args => if lng then none else some (v,args)
  | .long v::args => if lng then some (v,args) else none
  | _ => none

def emitField (s : List Byte) (width : Int) (left : Bool) : Option Out := do
  let n ← cint s.length
  let pad ← cint (width-n)
  let head : Out := if !left then emitPad pad (ch ' ') else ([],0)
  let tail : Out := if left then emitPad pad (ch ' ') else ([],0)
  let out ← cint (head.2+n+tail.2)
  return (head.1 ++ s ++ tail.1,out)

def nullText : List Byte := "(null)".toList.map ch

def convert (c : Byte) (left zero : Bool) (width : Int) (lng : Bool) (args : List Arg) :
    Option (Out × List Arg) :=
  if c = ch 'd' ∨ c = ch 'i' then do
    let (v,args) ← vaInteger lng args
    let u := if v.msb then -(v+1)+1 else v
    let o ← emitNum u 10 false v.msb width zero left
    return (o,args)
  else if c = ch 'u' then do
    let (v,args) ← vaInteger lng args
    let o ← emitNum v 10 false false width zero left
    return (o,args)
  else if c = ch 'x' ∨ c = ch 'X' then do
    let (v,args) ← vaInteger lng args
    let o ← emitNum v 16 (c == ch 'X') false width zero left
    return (o,args)
  else if c = ch 'p' then
    match args with
    | .ptr v::args => do
      let o ← emitNum v 16 false false width zero left
      let out ← cint (2+o.2)
      return ((ch '0'::ch 'x'::o.1,out),args)
    | _ => none
  else if c = ch 'c' then
    match args with
    | .int v::args => do
      let o ← emitField [v.setWidth 8] width left
      return (o,args)
    | _ => none
  else if c = ch 's' then
    match args with
    | .str s::args => do
      let o ← emitField ((s.getD nullText).takeWhile fun b => b != 0) width left
      return (o,args)
    | _ => none
  else if c = ch '%' then some (([ch '%'],1),args)
  else some (([ch '%',c],2),args)

structure Directive where
  left : Bool
  zero : Bool
  width : Int
  lng : Bool
  rest : List Byte

def directive (l : List Byte) : Option Directive := do
  let (f,l) := flagLoop l (false,false)
  let (width,l) ← widthLoop 0 l
  let (lng,l) := modLoop false l
  return ⟨f.1,f.2,width,lng,l⟩

theorem flagLoop_length (l : List Byte) (f : Bool × Bool) :
    (flagLoop l f).2.length ≤ l.length := by
  induction l generalizing f with
  | nil => exact Nat.le_refl _
  | cons c l ih =>
    rw [flagLoop]
    split
    · exact Nat.le_succ_of_le (ih _)
    split
    · exact Nat.le_succ_of_le (ih _)
    · exact Nat.le_refl _

theorem widthLoop_length {l l' : List Byte} {w w' : Int} (h : widthLoop w l = some (w',l')) :
    l'.length ≤ l.length := by
  induction l generalizing w with
  | nil =>
    cases h
    exact Nat.le_refl _
  | cons c l ih =>
    rw [widthLoop] at h
    split at h
    · simp only [Option.bind_eq_bind,Option.bind_eq_some_iff] at h
      obtain ⟨_,_,_,_,h⟩ := h
      exact Nat.le_succ_of_le (ih h)
    · cases h
      exact Nat.le_refl _

theorem modLoop_length (l : List Byte) (lng : Bool) : (modLoop lng l).2.length ≤ l.length := by
  induction l generalizing lng with
  | nil => exact Nat.le_refl _
  | cons c l ih =>
    rw [modLoop]
    split
    · exact Nat.le_succ_of_le (ih _)
    · exact Nat.le_refl _

theorem directive_length {l : List Byte} {d : Directive} (h : directive l = some d) :
    d.rest.length ≤ l.length := by
  simp only [directive,Option.bind_eq_bind,Option.bind_eq_some_iff] at h
  obtain ⟨⟨w,l'⟩,hw,h⟩ := h
  cases h
  exact (modLoop_length _ _).trans ((widthLoop_length hw).trans (flagLoop_length _ _))

/-- `vbench_printf` from some place in the format on, with `out` so far. A format ends at
its first NUL. -/
def vprintf (fmt : List Byte) (args : List Arg) (out : Int) : Option Out :=
  match fmt with
  | [] => some ([],out)
  | c::l =>
    if c = 0 then some ([],out)
    else if c ≠ ch '%' then do
      let out ← cint (out+1)
      let r ← vprintf l args out
      return (c::r.1,r.2)
    else
      match h : directive l with
      | none => none
      | some ⟨left,zero,width,lng,rest⟩ =>
        match rest, directive_length h with
        | [],_ => do
          let out ← cint (out+1)
          return ([ch '%'],out)
        | c::rest,_hlen =>
          if c = 0 then do
            let out ← cint (out+1)
            return ([ch '%'],out)
          else do
            let (o,args) ← convert c left zero width lng args
            let out ← cint (out+o.2)
            let r ← vprintf rest args out
            return (o.1 ++ r.1,r.2)
  termination_by fmt.length
  decreasing_by
    · simp
    · simp only [List.length_cons] at _hlen ⊢
      omega

def benchPrintf (fmt : List Byte) (args : List Arg) : Option Out := vprintf fmt args 0

end BenchIo

end Rvntt
