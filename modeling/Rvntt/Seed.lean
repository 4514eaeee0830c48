import Mathlib.Data.Nat.Log
import Rvntt.Pkg
set_option autoImplicit false

/-!
Zkr's noise path in the STUB build: the two synchroniser flops of
`rvntt_entropy`, the two continuous tests of `rvntt_entropy_health`, and the
`rvntt_seed` state machine that reads them.
-/

namespace Rvntt

/-- `rvntt_entropy` with `STUB = 1`; a sample is valid on every clock. -/
structure Noise where
  metaQ : Bool := false
  rawSyncQ : Bool := false
  deriving DecidableEq, Repr

def Noise.sample (s : Noise) : Bool := s.rawSyncQ

def Noise.next (s : Noise) (stubBit : Bool) : Noise := ⟨stubBit,s.metaQ⟩

namespace Health

structure Params where
  repCutoff : Nat := 21
  apWindow : Nat := 1024
  apCutoff : Nat := 589

def Params.runW (p : Params) : Nat := Nat.clog 2 (p.repCutoff+1)
def Params.winW (p : Params) : Nat := Nat.clog 2 p.apWindow
def Params.cntW (p : Params) : Nat := Nat.clog 2 (p.apWindow+1)

structure State (p : Params) where
  prevQ : Bool := false
  havePrevQ : Bool := false
  runQ : BitVec p.runW := 0
  repFailQ : Bool := false
  apPosQ : BitVec p.winW := 0
  apOnesQ : BitVec p.cntW := 0
  apFailQ : Bool := false

variable {p : Params}

def runContinues (s : State p) (sample : Bool) : Bool := s.havePrevQ && sample == s.prevQ

def runNext (s : State p) (sample : Bool) : BitVec p.runW :=
  if runContinues s sample then s.runQ+BitVec.ofNat _ 1 else BitVec.ofNat _ 1

def atWindowStart (s : State p) : Bool := s.apPosQ == BitVec.ofNat _ 0
def atWindowEnd (s : State p) : Bool := s.apPosQ == BitVec.ofNat _ (p.apWindow-1)

def apOnesNow (s : State p) (sample : Bool) : BitVec p.cntW :=
  (if atWindowStart s then BitVec.ofNat _ 0 else s.apOnesQ) +
    (if sample then BitVec.ofNat _ 1 else BitVec.ofNat _ 0)

def apZerosNow (s : State p) (sample : Bool) : BitVec p.cntW :=
  BitVec.ofNat _ p.apWindow-apOnesNow s sample

/-- Both values are counted, not only the window's first sample. -/
def apOver (s : State p) (sample : Bool) : Bool :=
  (BitVec.ofNat _ p.apCutoff).ule (apOnesNow s sample) ||
    (BitVec.ofNat _ p.apCutoff).ule (apZerosNow s sample)

/-- The edge of a valid sample; the registers hold on any other edge. -/
def accept (s : State p) (sample : Bool) : State p where
  prevQ := sample
  havePrevQ := true
  runQ := runNext s sample
  repFailQ := s.repFailQ || (BitVec.ofNat _ p.repCutoff).ule (runNext s sample)
  apPosQ := if atWindowEnd s then BitVec.ofNat _ 0 else s.apPosQ+BitVec.ofNat _ 1
  apOnesQ := apOnesNow s sample
  apFailQ := s.apFailQ || (atWindowEnd s && apOver s sample)

def next (s : State p) (sample sampleValid : Bool) : State p :=
  if sampleValid then accept s sample else s

def fail (s : State p) : Bool := s.repFailQ || s.apFailQ

end Health

namespace Seed

/-- The parameters of `rvntt_seed`; the defaults are what the core builds. -/
structure Params extends Health.Params where
  bistSamples : Nat := 1024

def Params.bistW (p : Params) : Nat := Nat.clog 2 (p.bistSamples+1)

structure State (p : Params) where
  noise : Noise := {}
  health : Health.State p.toParams := {}
  bistQ : BitVec p.bistW := BitVec.ofNat _ 0
  bufQ : BitVec 16 := 0
  fillQ : BitVec 5 := 0
  deadQ : Bool := false

structure In where
  stubBit : Bool
  rdEn : Bool

def stBist : BitVec 2 := 0b00
def stWait : BitVec 2 := 0b01
def stEs16 : BitVec 2 := 0b10
def stDead : BitVec 2 := 0b11

variable {p : Params}

def bistDone (s : State p) : Bool := (BitVec.ofNat _ p.bistSamples).ule s.bistQ
def full (s : State p) : Bool := s.fillQ == 16

/-- Free-running through the start-up test, then only to refill. -/
def wantSample (s : State p) : Bool := !s.deadQ && (!bistDone s || !full s)

def sample (s : State p) : Bool := s.noise.sample
def sampleValid (s : State p) : Bool := wantSample s
def healthFail (s : State p) : Bool := Health.fail s.health

def consume (s : State p) (i : In) : Bool := i.rdEn && bistDone s && !s.deadQ && full s

def next (s : State p) (i : In) : State p where
  noise := s.noise.next i.stubBit
  health := Health.next s.health (sample s) (sampleValid s)
  bistQ := if !bistDone s && sampleValid s then s.bistQ+BitVec.ofNat _ 1 else s.bistQ
  bufQ :=
    if consume s i then BitVec.ofNat 15 0 ++ BitVec.ofBool (sample s)
    else if sampleValid s && !full s then
      s.bufQ.extractLsb' 0 15 ++ BitVec.ofBool (sample s)
    else s.bufQ
  fillQ :=
    if consume s i then (if sampleValid s then 1 else 0)
    else if sampleValid s && !full s then s.fillQ+1
    else s.fillQ
  deadQ := s.deadQ || healthFail s

def status (s : State p) : BitVec 2 :=
  if s.deadQ then stDead
  else if !bistDone s then stBist
  else if full s then stEs16
  else stWait

/-- Entropy appears only with ES16. -/
def rdata (s : State p) : Word :=
  status s ++ (0 : BitVec 14) ++ (if status s = stEs16 then s.bufQ else 0)

end Seed

end Rvntt
