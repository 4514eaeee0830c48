import Rvntt.Core
import Rvntt.SocCapture
import Rvntt.Lib.Text
set_option autoImplicit false

/-!
The commit log: the monitor `rvntt_trace`, `spike_asm.py`, which reads the one of Spike,
and `commit_diff.py`, which compares them.
-/

namespace Rvntt

open Text

abbrev Line := SocUart.Line

/-! ### `rvntt_trace` -/

namespace Trace

def rdName (r : BitVec 5) : Line :=
  if r.ult 10 then 'x'::decimal r.toNat ++ [' '] else 'x'::decimal r.toNat

def line (c : Core.Commit) : Line :=
  match c.write with
  | some (rd,v) =>
    "core   0: 3 0x".toList ++ (hex 8 c.pc.toNat ++ (" (0x".toList ++ (hex 8 c.insn.toNat ++
      (") ".toList ++ (rdName rd ++ (" 0x".toList ++ hex 8 v.toNat))))))
  | none =>
    "core   0: 3 0x".toList ++ (hex 8 c.pc.toNat ++ (" (0x".toList ++ (hex 8 c.insn.toNat ++
      ")".toList)))

def file (cs : List Core.Commit) : List Char := cs.flatMap fun c => line c ++ ['\n']

end Trace

namespace Cosim

/-- `(pc, insn_word, [(rd, val)])`. -/
structure Record where
  pc : Nat
  insn : Nat
  writes : List (Nat × Nat)
  deriving DecidableEq, Repr

/-! ### `spike_asm.py` -/

/-- `core\s+\d+:\s+\d+\s+0x`. -/
def head (l : Line) : Option Line := do
  let l ← lit "core".toList l
  let (_,l) ← many SocUart.isSpace l
  let (_,l) ← many Char.isDigit l
  let l ← lit [':'] l
  let (_,l) ← many SocUart.isSpace l
  let (_,l) ← many Char.isDigit l
  let (_,l) ← many SocUart.isSpace l
  lit ['0','x'] l

/-- `x(\d+)\s+0x([0-9a-f]+)`, and what is behind it. -/
def writeAt (l : Line) : Option ((Nat × Nat) × Line) := do
  let l ← lit ['x'] l
  let (rd,l) ← many Char.isDigit l
  let (_,l) ← many SocUart.isSpace l
  let l ← lit ['0','x'] l
  let (v,l) ← many isHex l
  return ((ofDecimal rd,ofHex v),l)

def isWord (c : Char) : Bool := c.isAlphanum || c == '_'

/-- `WRITE_RE.findall` behind a word character or not, in at most `n` places. -/
def findWrites : Nat → Bool → Line → List (Nat × Nat)
  | 0,_,_ => []
  | _+1,_,[] => []
  | n+1,w,c::l =>
    match (if w then none else writeAt (c::l)) with
    | some (v,l') => v::findWrites n true l'
    | none => findWrites n (isWord c) l

/-- `COMMIT_RE`, and the register writes in its tail. -/
def commitLine (l : Line) : Option Record := do
  let l ← head l
  let (pc,l) ← many isHex l
  let (_,l) ← many SocUart.isSpace l
  let l ← lit ['(','0','x'] l
  let (insn,l) ← many isHex l
  let l ← lit [')'] l
  return ⟨ofHex pc,ofHex insn,findWrites l.length false l⟩

def spikeTrace (lines : List Line) : List Record := lines.filterMap commitLine

/-- Faulting PCs; `handler` is the address of `trap_handler`, if it is a symbol. -/
def skippedTraps (handler : Option Nat) (trace : List Record) : Option (List Nat) :=
  handler.map fun h => (trace.filter fun r => r.pc == h).flatMap fun r => r.writes.map Prod.snd

/-! ### `commit_diff.py` -/

def BASE : Nat := 0x80000000

/-- `x(\d+)\s+0x([0-9a-f]{8})` behind the space. -/
def rtlWrite (l : Line) : Option ((Nat × Nat) × Line) := do
  let (_,l) ← many SocUart.isSpace l
  let l ← lit ['x'] l
  let (rd,l) ← many Char.isDigit l
  let (_,l) ← many SocUart.isSpace l
  let l ← lit ['0','x'] l
  let (v,l) ← exactly isHex 8 l
  return ((ofDecimal rd,ofHex v),l)

/-- `RTL_LINE_RE`. -/
def rtlLine (l : Line) : Option Record := do
  let l ← head l
  let (pc,l) ← exactly isHex 8 l
  let (_,l) ← many SocUart.isSpace l
  let l ← lit ['(','0','x'] l
  let (insn,l) ← exactly isHex 8 l
  let l ← lit [')'] l
  if l.all SocUart.isSpace then return ⟨ofHex pc,ofHex insn,[]⟩
  let (w,l) ← rtlWrite l
  if l.all SocUart.isSpace then return ⟨ofHex pc,ofHex insn,[w]⟩
  none

def renderWrite (w : Nat × Nat) : Line :=
  ' '::(('x'::decimal w.1).rightpad 3 ' ' ++ (" 0x".toList ++ hex 8 w.2))

def render (r : Record) : Line :=
  "core   0: 3 0x".toList ++ (hex 8 r.pc ++ (" (0x".toList ++ (hex 8 r.insn ++
    (")".toList ++ r.writes.flatMap renderWrite))))

def spikeFrom (handler : Option Nat) : List Record → List Record
  | [] => []
  | r::l =>
    -- bootrom, by address not by count
    if r.pc < BASE then spikeFrom handler l
    else if handler = some r.pc then []
    else ⟨r.pc,r.insn,r.writes.filter fun w => w.1 != 0⟩::spikeFrom handler l

/-- `none` is the RuntimeError of an empty trace. -/
def spikeRecords (trace : List Record) (handler : Option Nat) : Option (List Record) :=
  if trace = [] then none else some (spikeFrom handler trace)

def rtlFrom (stopPc : Option Nat) (n : Nat) : List Line → Except (Nat × Line) (List Record)
  | [] => .ok []
  | l::ls =>
    if l = [] then rtlFrom stopPc (n+1) ls
    else
      match rtlLine l with
      | none => .error (n,l)
      | some r =>
        if stopPc = some r.pc then .ok []
        else (rtlFrom stopPc (n+1) ls).map fun rs => r::rs

def rtlRecords (text : List Char) (stopPc : Option Nat) : Except (Nat × Line) (List Record) :=
  rtlFrom stopPc 1 (SocUart.linesOf text)

/-! #### The report -/

def reprWrites (ws : List (Nat × Nat)) : Line :=
  ['['] ++ List.intercalate ", ".toList
    (ws.map fun w => ['('] ++ decimal w.1 ++ ", ".toList ++ decimal w.2 ++ [')']) ++ [']']

def side (recs : List Record) (i : Nat) : Line :=
  match recs[i]? with
  | some r => render r
  | none => "<end of log>".toList

def reportHead (spike rtl : List Record) (first : Nat) : Line :=
  match spike[first]?,rtl[first]? with
  | some s,some _ =>
    "FIRST DIVERGENCE at commit #".toList ++ decimal first ++ " (pc 0x".toList ++ hex 8 s.pc ++ [')']
  | _,_ =>
    "LOGS AGREE for ".toList ++ decimal first ++ " commits but differ in LENGTH: spike ".toList ++
      decimal spike.length ++ ", rtl ".toList ++ decimal rtl.length

def reportTail (spike rtl : List Record) (first : Nat) : List Line :=
  match spike[first]?,rtl[first]? with
  | some s,some r =>
    if s.pc ≠ r.pc then
      ["  pc differs:   spike 0x".toList ++ hex 8 s.pc ++ "  rtl 0x".toList ++ hex 8 r.pc]
    else if s.insn ≠ r.insn then
      ["  insn differs: spike 0x".toList ++ hex 8 s.insn ++ "  rtl 0x".toList ++ hex 8 r.insn ++
        "  (the RTL fetched a different word at the same pc)".toList]
    else
      ["  same pc and insn; the register writeback differs:".toList,
        "    spike ".toList ++ reprWrites s.writes,"    rtl   ".toList ++ reprWrites r.writes]
  | _,_ => []

def report (spike rtl : List Record) (first : Nat) (context : Int) : Line :=
  let lo := max 0 (first-context)
  let hi := min (max spike.length rtl.length : Int) (first+context+1)
  let lines := [reportHead spike rtl first,[],
    [' ',' '] ++ [].rightpad 4 ' ' ++ [' ',' '] ++ "SPIKE".toList.rightpad 50 ' ' ++ "  RTL".toList] ++
    ((List.range (hi-lo).toNat).map fun k =>
      let i := lo.toNat+k
      let s := side spike i
      let r := side rtl i
      (if s = r then "  ".toList else ">>".toList) ++ (decimal i).rightpad 4 ' ' ++ "  ".toList ++
        s.rightpad 50 ' ' ++ "  ".toList ++ r) ++ [[]] ++ reportTail spike rtl first
  List.intercalate ['\n'] lines

def firstDivergence (spike rtl : List Record) : Option Nat :=
  (spike.zip rtl).findIdx? fun p => render p.1 != render p.2

def diff (spike rtl : List Record) (context : Int) : Option Line :=
  match firstDivergence spike rtl with
  | some first => some (report spike rtl first context)
  | none =>
    if spike.length = rtl.length then none
    else some (report spike rtl (min spike.length rtl.length) context)

end Cosim

end Rvntt
