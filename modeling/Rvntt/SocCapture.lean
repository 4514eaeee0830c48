import Mathlib.Data.List.Chain
import Mathlib.Algebra.Group.Nat.Defs
import Rvntt.Pkg
import Rvntt.Lib.Bits
import Rvntt.Lib.Text
set_option autoImplicit false

/-!
The block `hello.c` prints and `parse_soc_uart.py`, which reads a capture of such blocks.
-/

namespace Rvntt

/-! ### `hello.c` -/

namespace Hello

/-- What one turn of the loop reads; `img` is the sum of a changed image. -/
structure Block where
  gin : Word
  cyc : Word
  ins : Word
  rx : Option (BitVec 8)
  overrun : Bool
  img : Option Word
  iter : Word

def hx : List Char := "0123456789ABCDEF".toList

def hexDigits (v : Word) : Nat → List Char
  | 0 => []
  | i+1 => hx.getD ((v >>> (i*4)) &&& 0xF).toNat '0' :: hexDigits v i

def puthex (v : Word) (digits : Nat) : List Char := "0x".toList ++ hexDigits v digits

namespace Block

def gpioLine (b : Block) : List Char :=
  "sw=".toList ++ puthex (b.gin &&& 0xF) 1 ++ " btn=".toList ++ puthex (b.gin >>> 4 &&& 0xF) 1

def countLine (b : Block) : List Char :=
  "mcycle=".toList ++ puthex b.cyc 8 ++ " minstret=".toList ++ puthex b.ins 8

def echoLine (b : Block) : List Char :=
  "echo=".toList ++
    (match b.rx with
      | some c => puthex (c.setWidth 32) 2
      | none => "none".toList) ++
    if b.overrun then " overrun".toList else []

def imgLine (b : Block) : List Char :=
  "img=".toList ++
    match b.img with
    | none => "OK".toList
    | some v => "BAD ".toList ++ puthex v 8

def iterLine (b : Block) : List Char := "iter=".toList ++ puthex b.iter 8

def lines (b : Block) : List (List Char) :=
  ["=== rvntt soc ===".toList,"hello=Hello, world!".toList,b.gpioLine,b.countLine,b.echoLine,
    b.imgLine,b.iterLine,"=== end ===".toList]

end Block

def crlf : List Char := "\r\n".toList

def text (lines : List (List Char)) : List Char := lines.flatMap fun l => l ++ crlf

end Hello

/-! ### `parse_soc_uart.py` -/

namespace SocUart

open Text (lit)

abbrev Line := List Char

def START : Line := "=== rvntt soc ===".toList
def END : Line := "=== end ===".toList

/-- `str.isspace` of one character. -/
def isSpace (c : Char) : Bool :=
  let n := c.toNat
  (9 ≤ n && n ≤ 13) || (28 ≤ n && n ≤ 32) || n == 0x85 || n == 0xA0 || n == 0x1680 ||
    (0x2000 ≤ n && n ≤ 0x200A) || n == 0x2028 || n == 0x2029 || n == 0x202F || n == 0x205F ||
    n == 0x3000

def strip (l : Line) : Line := ((l.dropWhile isSpace).reverse.dropWhile isSpace).reverse

/-- `replace("\r\n", "\n")`. -/
def replaceCrLf : List Char → List Char
  | '\r' :: '\n' :: l => '\n' :: replaceCrLf l
  | c::l => c::replaceCrLf l
  | [] => []

def replaceCr (l : List Char) : List Char := l.map fun c => if c = '\r' then '\n' else c

def linesOf (text : List Char) : List Line := (replaceCr (replaceCrLf text)).splitOn '\n'

/-! The pieces of the regular expressions; each leaves what it did not match. -/

def hexVal (c : Char) : Option Nat :=
  if '0' ≤ c ∧ c ≤ '9' then some (c.toNat - '0'.toNat)
  else if 'A' ≤ c ∧ c ≤ 'F' then some (c.toNat - 'A'.toNat+10)
  else none

/-- `[0-9A-F]{n}` and `int(_, 16)` of it, behind digits already read. -/
def hexNum (acc : Nat) : Nat → List Char → Option (Nat × List Char)
  | 0,l => some (acc,l)
  | _+1,[] => none
  | n+1,c::l =>
    match hexVal c with
    | some d => hexNum (16*acc+d) n l
    | none => none

/-- `\s+`, in front of something that is no space. -/
def spaces : List Char → Option (List Char)
  | c::l => if isSpace c then some (l.dropWhile isSpace) else none
  | [] => none

def eol (l : List Char) : Option Unit := if l = [] ∨ l = ['\n'] then some () else none

def reHello (l : Line) : Option Unit := do
  let l ← lit "hello=Hello, world!".toList l
  eol l

def reGpio (l : Line) : Option (Nat × Nat) := do
  let l ← lit "sw=0x".toList l
  let (sw,l) ← hexNum 0 1 l
  let l ← spaces l
  let l ← lit "btn=0x".toList l
  let (btn,l) ← hexNum 0 1 l
  eol l
  return (sw,btn)

def reCnt (l : Line) : Option (Nat × Nat) := do
  let l ← lit "mcycle=0x".toList l
  let (mcycle,l) ← hexNum 0 8 l
  let l ← spaces l
  let l ← lit "minstret=0x".toList l
  let (minstret,l) ← hexNum 0 8 l
  eol l
  return (mcycle,minstret)

/-- `( overrun)?$`, behind a group already read. -/
def overrunEol (echo : Option Nat) (l : List Char) : Option (Option Nat × Bool) :=
  match lit " overrun".toList l with
  | some l' => (eol l').map fun _ => (echo,true)
  | none => (eol l).map fun _ => (echo,false)

def reEcho (l : Line) : Option (Option Nat × Bool) := do
  let l ← lit "echo=".toList l
  match lit "none".toList l with
  | some l' => overrunEol none l'
  | none =>
    let l ← lit "0x".toList l
    let (v,l) ← hexNum 0 2 l
    overrunEol (some v) l

/-- The group is the text itself. -/
def reImg (l : Line) : Option Line := do
  let g ← lit "img=".toList l
  match lit "OK".toList g with
  | some l' => (eol l').map fun _ => "OK".toList
  | none =>
    let l ← lit "BAD 0x".toList g
    let (_,l) ← hexNum 0 8 l
    (eol l).map fun _ => g.take 14

def reIter (l : Line) : Option Nat := do
  let l ← lit "iter=0x".toList l
  let (iter,l) ← hexNum 0 8 l
  eol l
  return iter

structure Block where
  sw : Nat
  btn : Nat
  mcycle : Nat
  minstret : Nat
  echo : Option Nat
  overrun : Bool
  img : Line
  iter : Nat
  deriving DecidableEq

inductive Finding where
  | length (line got : Nat)
  | hello (l : Line)
  | gpio (l : Line)
  | counter (l : Line)
  | echo (l : Line)
  | img (l : Line)
  | iter (l : Line)
  | tooFew (got : Nat) (need : Int)
  | iterStep (a b : Nat)
  | mcycleStep (a b : Nat)
  | minstretStep (a b : Nat)
  | imageChanged (img : Line)
  | neverEchoed (byte : Nat)
  | swReads (got expected : Nat)
  | btnReads (got expected : Nat)
  deriving DecidableEq

def orElse {α : Type} (m : Option α) (f : Finding) : List Finding :=
  if m.isSome then [] else [f]

def parseBody (i : Nat) : List Line → Option Block × List Finding
  | [l0,l1,l2,l3,l4,l5] =>
    let errors := orElse (reHello l0) (.hello l0) ++ orElse (reGpio l1) (.gpio l1) ++
      orElse (reCnt l2) (.counter l2) ++ orElse (reEcho l3) (.echo l3) ++
      orElse (reImg l4) (.img l4) ++ orElse (reIter l5) (.iter l5)
    let block := do
      reHello l0
      let (sw,btn) ← reGpio l1
      let (mcycle,minstret) ← reCnt l2
      let (echo,overrun) ← reEcho l3
      let img ← reImg l4
      let iter ← reIter l5
      return {sw,btn,mcycle,minstret,echo,overrun,img,iter}
    (block,errors)
  | body => (none,[.length (i+1) body.length])

def takeBody : List Line → List Line × List Line
  | [] => ([],[])
  | l::ls =>
    if strip l = END ∨ strip l = START then ([],l::ls)
    else (strip l::(takeBody ls).1,(takeBody ls).2)

theorem takeBody_length (ls : List Line) : (takeBody ls).2.length ≤ ls.length := by
  induction ls with
  | nil => exact Nat.le_refl _
  | cons l ls ih =>
    rw [takeBody]
    split
    · exact Nat.le_refl _
    · exact Nat.le_succ_of_le ih

/-- The scan from line `i` on. A block cut short by a START is passed over without a
word, as is one cut short by the end. -/
def parseFrom (i : Nat) : List Line → List Block × List Finding
  | [] => ([],[])
  | l::ls =>
    if strip l ≠ START then parseFrom (i+1) ls
    else
      match h : takeBody ls with
      | (_,[]) => ([],[])
      | (body,e::rest) =>
        have : rest.length < ls.length := by
          have := takeBody_length ls
          rw [h] at this
          exact this
        if strip e ≠ END then parseFrom (i+1+body.length) (e::rest)
        else
          let b := parseBody i body
          let r := parseFrom (i+1+body.length+1) rest
          (b.1.toList ++ r.1,b.2 ++ r.2)
  termination_by ls => ls.length
  decreasing_by
    · simp
    · simp only [List.length_cons]
      omega
    · simp only [List.length_cons]
      omega

def parseBlocks (text : List Char) : List Block × List Finding := parseFrom 0 (linesOf text)

def moving (a b : Block) : List Finding :=
  (if b.iter ≠ a.iter+1 then [.iterStep a.iter b.iter] else []) ++
    (if b.mcycle ≤ a.mcycle then [.mcycleStep a.mcycle b.mcycle] else []) ++
    if b.minstret ≤ a.minstret then [.minstretStep a.minstret b.minstret] else []

/-- `none` is the IndexError of `blocks[0]`. -/
def checkFirst (blocks : List Block) (expect : Option Nat) (field : Block → Nat)
    (finding : Nat → Nat → Finding) : Option (List Finding) :=
  match expect with
  | none => some []
  | some v =>
    match blocks with
    | [] => none
    | b::_ => some (if field b ≠ v then [finding (field b) v] else [])

def check (text : List Char) (expectEcho : Option Nat) (minBlocks : Int)
    (expectSw expectBtn : Option Nat) : Option (Bool × List Finding) := do
  let (blocks,errors) := parseBlocks text
  if (blocks.length : Int) < minBlocks then
    return (false,errors ++ [.tooFew blocks.length minBlocks])
  let steps := (blocks.zip blocks.tail).flatMap fun p => moving p.1 p.2
  let image :=
    match blocks.find? fun b => b.img != "OK".toList with
    | some b => [Finding.imageChanged b.img]
    | none => []
  let echo :=
    match expectEcho with
    | some v => if blocks.any fun b => b.echo == some v then [] else [Finding.neverEchoed v]
    | none => []
  let sw ← checkFirst blocks expectSw Block.sw .swReads
  let btn ← checkFirst blocks expectBtn Block.btn .btnReads
  let findings := errors ++ steps ++ image ++ echo ++ sw ++ btn
  return (findings.isEmpty,findings)

end SocUart

end Rvntt
