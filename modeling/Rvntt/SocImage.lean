import Rvntt.Throughput
import Rvntt.UartSound
set_option autoImplicit false

/-!
The image that `rvntt_soc_top` is built with, and that its program runs as it should on every
board: with any pins, noise and arrays at power-up.
-/

namespace Rvntt

/-! ### Code that the checker passes -/

namespace SocTop

open Isa UartCheck
open Core (exDone exTrap)

section run

variable {aw : Nat} {p : Params} {w : Predicted.PowerUp} {ram : Ram aw} {x : Nat → In}
  {marks : List (Nat × Facts)} {code : List Word}

/-- The program is sound up to every cycle, and has kept the order of the registers. -/
theorem software_sound (hfit : Fits p.toParams aw code)
    (hall : passes p.ramBase p.mmioBase aw code.length marks 0 none code = true)
    (h : Sound p.toParams marks code (software p w ram x 0) (false,{})) (t : Nat) :
    ∃ q, Sound p.toParams marks code (software p w ram x t) q ∧
      (UartDriver.ops (uartAt p w ram x) t).foldlM UartOp.txNext false = some q.1 ∧
      (UartDriver.ops (uartAt p w ram x) t).foldlM UartOp.rxNext {} = some q.2 := by
  induction t with
  | zero => exact ⟨_,h,rfl,rfl⟩
  | succ t ih =>
    obtain ⟨q,hs,htx,hrx⟩ := ih
    rw [UartDriver.ops_succ,List.foldlM_append,List.foldlM_append,htx,hrx]
    cases hd : exDone (core p w ram x t) with
    | false =>
      rw [software_wait hd,show uartAt p w ram x t = none from if_neg (by simp [hd])]
      exact ⟨q,hs,rfl,rfl⟩
    | true =>
      obtain ⟨q',hf,_,hs'⟩ := hs.step hfit hall (inputAt p w ram x t)
      rw [software_done hd,show uartAt p w ram x t = _ from if_pos hd]
      exact ⟨q',hs',hf⟩

theorem sound_fetch {m : Machine aw} {q q' : Bool × UartOp.Reader} {mem : BitVec (aw+2) → BitVec 8}
    {r : Hart} (hfit : Fits p.toParams aw code) (h : Sound p.toParams marks code m q)
    (h' : Sound p.toParams marks code ⟨r,mem⟩ q') :
    ({m with mem := mem} : Machine aw).fetch p.ramBase = m.fetch p.ramBase := by
  obtain ⟨k,_,_,hk,_,_,hpc,_⟩ := h.here
  obtain ⟨ha,hi⟩ := hfit.place hk
  rw [← hpc] at ha hi
  have hlt : index p.ramBase aw m.pc < code.length := by
    rw [hi]
    exact hk
  exact Option.some.inj ((h'.words m.pc ha hlt).symm.trans (h.words m.pc ha hlt))

theorem sound_noFetchedStore (hfit : Fits p.toParams aw code)
    (hall : passes p.ramBase p.mmioBase aw code.length marks 0 none code = true)
    (h : Sound p.toParams marks code (software p w ram x 0) (false,{})) :
    NoFetchedStore p w ram x := by
  intro t l _
  obtain ⟨q,hs,_⟩ := software_sound hfit hall h t
  obtain ⟨q',hs'⟩ := Sound.run hfit hall h l
  exact sound_fetch hfit hs hs'

theorem sound_retires (hfit : Fits p.toParams aw code)
    (hall : passes p.ramBase p.mmioBase aw code.length marks 0 none code = true)
    (h : Sound p.toParams marks code (software p w ram x 0) (false,{})) (t : Nat) :
    exTrap (core p w ram x t) = false := by
  by_contra hn
  have ht : exTrap (core p w ram x t) = true := Bool.not_eq_false _ ▸ hn
  have hd : exDone (core p w ram x t) = true :=
    Core.exTrap_done (Core.run_decoded p.ramBase _ t) ht
  have hns := sound_noFetchedStore hfit hall h
  obtain ⟨q,hs,_⟩ := software_sound hfit hall h t
  obtain ⟨_,_,hret,_⟩ := hs.step hfit hall (inputAt p w ram x t)
  rw [← arch_software hfit.base hns t] at hret
  have hi := insn_eq hfit.base hns (fun u _ => arch_software hfit.base hns u) hd
  have hc := congrArg Option.isSome (arch_done hfit.base hd hi).2.1
  have htwo : (Core.commit (core p w ram x (t+2))).isSome = Core.retires (core p w ram x t) :=
    Core.commit_two _ _ t
  rw [htwo,Core.retires,hd,ht] at hc
  cases he : (arch p w ram x t).socEvent p.toParams (inputAt p w ram x t) with
  | retired c =>
    rw [he] at hc
    cases hc
  | trapped pc cause val =>
    rw [he] at hret
    cases hret

theorem sound_array (hfit : Fits p.toParams aw code)
    (hall : passes p.ramBase p.mmioBase aw code.length marks 0 none code = true)
    (h : Sound p.toParams marks code (software p w ram x 0) (false,{})) (t : Nat) {k : Nat}
    (hk : k < code.length) : (run p w ram x t).bus.ram.mem (BitVec.ofNat aw k) = code[k] := by
  have hns := sound_noFetchedStore hfit hall h
  obtain ⟨q,hs,_⟩ := software_sound hfit hall h t
  rw [← arch_software hfit.base hns t] at hs
  obtain ⟨ha,hi⟩ := hfit.place hk
  have hw := hs.words (place p.ramBase k) ha (by rw [hi]; exact hk)
  rw [hi,List.getElem?_eq_getElem hk] at hw
  have hf : ({arch p w ram x t with pc := place p.ramBase k} : Machine aw).fetch p.ramBase =
      (run p w ram x t).bus.ram.mem _ := fetch_word hfit.base ha rfl
  rw [Machine.fetch_eq] at hf
  have hindex : (Ram.wordAddr p.ramBase (place p.ramBase k) : BitVec aw) = BitVec.ofNat aw k := by
    refine BitVec.eq_of_toNat_eq ?_
    have hlen := hfit.length
    rw [BitVec.toNat_ofNat,Nat.mod_eq_of_lt (by omega)]
    exact hi
  rw [← hindex]
  exact hf.symm.trans (Option.some.inj hw).symm

end run

end SocTop

/-! ### The image -/

namespace SocImage

open UartCheck

/-- `soc_init.mem`: `crt0.S` and `hello.c`. -/
def words : List Word :=
  [0x00020117,0x00010113,0x00000297,0x78E28293,0x00000317,0x78630313,0x0062F863,0x0002A023,
    0x00428293,0xFF5FF06F,0x008000EF,0x0000006F,0xFB010113,0x800005B7,0x04812623,0x04912423,
    0x05212223,0x05312023,0x03412E23,0x03512C23,0x03612A23,0x03712823,0x03812623,0x03912423,
    0x03A12223,0x03B12023,0x18058593,0x800007B7,0x00000713,0x0007A683,0x01F75613,0x00171713,
    0x00C70733,0x00478793,0x00D70733,0xFEB794E3,0x00E12823,0x80000837,0x400005B7,0x400006B7,
    0x40000737,0x76C80813,0x01068693,0x00870713,0x80000B37,0x80000AB7,0x80000A37,0x80000537,
    0x800009B7,0x80000937,0x800004B7,0x80000437,0x800008B7,0x800003B7,0x80000CB7,0x800002B7,
    0x80000FB7,0x00C58593,0x400007B7,0x80000637,0x01012423,0x00D12C23,0x00E12E23,0x71BB0B13,
    0x731A8A93,0x737A0A13,0x6F450513,0x73D98993,0x74790913,0x75248493,0x75940413,0x76088F13,
    0x77438393,0x77CC8C93,0x78528293,0x795F8F93,0x00B12A23,0x00478793,0x18060613,0x400006B7,
    0x03000C13,0x07800B93,0x00D00D93,0x00A00D13,0xFFC00813,0x00000713,0x01412883,0x00F77593,
    0x00B8A023,0x01812583,0x0005AE83,0xB0002E73,0xB0202373,0x800005B7,0x03D00893,0x70858593,
    0x00E12623,0x00158593,0x0007A703,0x00177713,0xFE070CE3,0x0116A023,0x0005C883,0xFF6594E3,
    0x800005B7,0x06800893,0x71C58593,0x00158593,0x0007A703,0x00177713,0xFE070CE3,0x0116A023,
    0x0005C883,0xFF5594E3,0x800005B7,0x07300893,0x73458593,0x00158593,0x0007A703,0x00177713,
    0xFE070CE3,0x0116A023,0x0005C883,0xFF4594E3,0x00C12703,0x00FEF893,0x0007A583,0x0015F593,
    0xFE058CE3,0x0186A023,0x0007A583,0x0015F593,0xFE058CE3,0x011508B3,0x0008C883,0x0176A023,
    0x0007A583,0x0015F593,0xFE058CE3,0x0116A023,0x800005B7,0x02000893,0x73858593,0x00E12623,
    0x00158593,0x0007A703,0x00177713,0xFE070CE3,0x0116A023,0x0005C883,0xFF3594E3,0x00C12703,
    0x004ED893,0x00F8F893,0x0007A583,0x0015F593,0xFE058CE3,0x0186A023,0x0007A583,0x0015F593,
    0xFE058CE3,0x011508B3,0x0008C883,0x0176A023,0x0007A583,0x0015F593,0xFE058CE3,0x0116A023,
    0x0007A583,0x0015F593,0xFE058CE3,0x01B6A023,0x0007A583,0x0015F593,0xFE058CE3,0x800005B7,
    0x01A6A023,0x06D00E93,0x74058893,0x00188893,0x0007A583,0x0015F593,0xFE058CE3,0x01D6A023,
    0x0008CE83,0xFF2894E3,0x0007A583,0x0015F593,0xFE058CE3,0x0186A023,0x0007A583,0x0015F593,
    0xFE058CE3,0x0176A023,0x01C00893,0x011E55B3,0x00F5F593,0x00B505B3,0x0005CE83,0x0007A583,
    0x0015F593,0xFE058CE3,0x01D6A023,0xFFC88893,0xFD089EE3,0x800005B7,0x02000E13,0x74858893,
    0x00188893,0x0007A583,0x0015F593,0xFE058CE3,0x01C6A023,0x0008CE03,0xFE9894E3,0x0007A583,
    0x0015F593,0xFE058CE3,0x0186A023,0x0007A583,0x0015F593,0xFE058CE3,0x0176A023,0x01C00893,
    0x011355B3,0x00F5F593,0x00B505B3,0x0005CE03,0x0007A583,0x0015F593,0xFE058CE3,0x01C6A023,
    0xFFC88893,0xFD089EE3,0x0007A583,0x0015F593,0xFE058CE3,0x01B6A023,0x0007A583,0x0015F593,
    0xFE058CE3,0x01A6A023,0x0007AE03,0x800005B7,0x06500313,0x75458893,0x00188893,0x0007A583,
    0x0015F593,0xFE058CE3,0x0066A023,0x0008C303,0xFE8894E3,0x002E7593,0x28058A63,0x01C12583,
    0x0005A883,0x0007A583,0x0015F593,0xFE058CE3,0x0186A023,0x0007A583,0x0015F593,0xFE058CE3,
    0x0048D593,0x00F5F593,0x00B505B3,0x0005C303,0x0176A023,0x0007A583,0x0015F593,0xFE058CE3,
    0x00F8F593,0x00B505B3,0x0005C883,0x0066A023,0x0007A583,0x0015F593,0xFE058CE3,0x01C12583,
    0x0116A023,0x004E7E13,0x0005A023,0x240E1863,0x0007A583,0x0015F593,0xFE058CE3,0x01B6A023,
    0x0007A583,0x0015F593,0xFE058CE3,0x01A6A023,0x800005B7,0x00000893,0x01F8D313,0x00189893,
    0x006888B3,0x0005A303,0x00458593,0x006888B3,0xFEC594E3,0x800005B7,0x06900E13,0x77058313,
    0x00130313,0x0007A583,0x0015F593,0xFE058CE3,0x01C6A023,0x00034E03,0xFE7314E3,0x800005B7,
    0x77858313,0x01012583,0x04200E13,0x17158463,0x00130313,0x0007A583,0x0015F593,0xFE058CE3,
    0x01C6A023,0x00034E03,0xFF9314E3,0x0007A583,0x0015F593,0xFE058CE3,0x0186A023,0x0007A583,
    0x0015F593,0xFE058CE3,0x0176A023,0x01C00313,0x0068D5B3,0x00F5F593,0x00B505B3,0x0005CE03,
    0x0007A583,0x0015F593,0xFE058CE3,0x01C6A023,0xFFC30313,0xFD031EE3,0x0007A583,0x0015F593,
    0xFE058CE3,0x01B6A023,0x0007A583,0x0015F593,0xFE058CE3,0x800005B7,0x01A6A023,0x06900313,
    0x78058893,0x00188893,0x0007A583,0x0015F593,0xFE058CE3,0x0066A023,0x0008C303,0xFE5894E3,
    0x0007A583,0x0015F593,0xFE058CE3,0x0186A023,0x0007A583,0x0015F593,0xFE058CE3,0x0176A023,
    0x01C00893,0x011755B3,0x00F5F593,0x00B505B3,0x0005C303,0x0007A583,0x0015F593,0xFE058CE3,
    0x0066A023,0xFFC88893,0xFD089EE3,0x0007A583,0x0015F593,0xFE058CE3,0x01B6A023,0x0007A583,
    0x0015F593,0xFE058CE3,0x800005B7,0x01A6A023,0x03D00313,0x78858893,0x00188893,0x0007A583,
    0x0015F593,0xFE058CE3,0x0066A023,0x0008C303,0xFFF894E3,0x00170713,0xB0002373,0x047878B7,
    0x8BF88893,0xB00025F3,0x406585B3,0xFEB8FCE3,0xB09FF06F,0x0007A583,0x0015F593,0xFE058CE3,
    0x04F00593,0x00B6A023,0x0007A583,0x0015F593,0xFE058CE3,0x04B00593,0x00B6A023,0x0007A583,
    0x0015F593,0xEC058AE3,0xEDDFF06F,0x800005B7,0x06E00313,0x75C58893,0x00188893,0x0007A583,
    0x0015F593,0xFE058CE3,0x0066A023,0x0008C303,0xFFE894E3,0x004E7E13,0xDA0E0CE3,0x800005B7,
    0x02000313,0x76458893,0x00188893,0x0007A583,0x0015F593,0xFE058CE3,0x00812583,0x0066A023,
    0x0008C303,0xFEB892E3,0x00400593,0x00B7A023,0xD81FF06F,0x33323130,0x37363534,0x42413938,
    0x46454443,0x00000000,0x203D3D3D,0x746E7672,0x6F732074,0x3D3D2063,0x000A0D3D,0x6C6C6568,
    0x65483D6F,0x2C6F6C6C,0x726F7720,0x0D21646C,0x0000000A,0x003D7773,0x6E746220,0x0000003D,
    0x6379636D,0x003D656C,0x6E696D20,0x65727473,0x00003D74,0x6F686365,0x0000003D,0x656E6F6E,
    0x00000000,0x65766F20,0x6E757272,0x00000000,0x3D676D69,0x00000000,0x20444142,0x00000000,
    0x72657469,0x0000003D,0x203D3D3D,0x20646E65,0x0D3D3D3D,0x0000000A]

/-- Where the stack is, and the addresses of the registers that the program keeps in it. -/
def body : Facts where
  regs := [(2,.word 0x8001FFB0),(13,.word 0x40000000),(15,.word 0x40000004)]
  words := [(0x7FF1,0x4000000C),(0x7FF2,0x40000010),(0x7FF3,0x40000008)]

/-- The heads of the loops, and where two branches meet. -/
def joins : List Nat :=
  [86,97,98,107,108,117,118,126,130,136,144,145,154,158,164,168,172,179,180,186,190,195,199,208,
    209,215,219,224,228,234,238,284,288,304,305,316,317,323,327,332,336,342,346,353,354,360,364,
    369,373,379,383,390,391,401,405,410,419,422,423,431,434,435]

/-- `crt0`, the sums over the image, the two `if`s on the status, and the rest. -/
def marks : List (Nat × Facts) :=
  [(0,{}),(10,{regs := [(2,.word 0x80020000)]}),(12,{regs := [(2,.word 0x80020000)]}),
    (29,{regs := [(2,.word 0x8001FFB0),(15,.aligned)]}),
    (294,body.set 11 .aligned),(345,{body with ready := true})] ++
  [246,247].map (fun k => (k,body.set 28 (.status false))) ++
  [257,261,269,276].map (fun k => (k,{body with valid := true, byte := true})) ++
  joins.map fun k => (k,body)

theorem passes_words : passes 0x80000000 0x40000000 15 words.length marks 0 none words = true := by
  decide +kernel

/-- The array after `$readmemh`. -/
def Loaded (ram : Ram 15) : Prop :=
  ∀ k, (h : k < words.length) → ram.mem (BitVec.ofNat 15 k) = words[k]

def array : Ram 15 := ⟨fun k => words.getD k.toNat 0,0,0⟩

def board : SocTop.Params := {}

/-- A host sends a `Z`, at the rate of the board. -/
def typed : Nat → SocTop.In := fun t => {uartTxdIn := Serial.line 835 [(1000,0x5A)] t}

theorem array_loaded : Loaded array := by
  intro k h
  have hlen : words.length ≤ 2^15 := by decide +kernel
  change words.getD (BitVec.ofNat 15 k).toNat 0 = words[k]
  rw [BitVec.toNat_ofNat,Nat.mod_eq_of_lt (by omega),List.getD_eq_getElem _ _ h]

section board

variable {p : SocTop.Params} {w : Predicted.PowerUp} {ram : Ram 15} {x : Nat → SocTop.In}

theorem fits (hr : p.ramBase = 0x80000000) : Fits p.toParams 15 words where
  base := by rw [hr]; decide
  width := by decide
  length := by decide +kernel

theorem sound_start (hr : p.ramBase = 0x80000000) (hm : p.mmioBase = 0x40000000)
    (hl : Loaded ram) :
    passes p.ramBase p.mmioBase 15 words.length marks 0 none words = true ∧
      Sound p.toParams marks words (SocTop.software p w ram x 0) (false,{}) := by
  have hall : passes p.ramBase p.mmioBase 15 words.length marks 0 none words = true := by
    rw [hr,hm]
    exact passes_words
  exact ⟨hall,sound_reset (fits hr) hall rfl (List.cons_ne_nil _ _) hl⟩

theorem noFetchedStore (hr : p.ramBase = 0x80000000) (hm : p.mmioBase = 0x40000000)
    (hl : Loaded ram) : SocTop.NoFetchedStore p w ram x := by
  obtain ⟨hall,hs⟩ := sound_start (w := w) (x := x) hr hm hl
  exact SocTop.sound_noFetchedStore (fits hr) hall hs

theorem ordered (hr : p.ramBase = 0x80000000) (hm : p.mmioBase = 0x40000000)
    (hl : Loaded ram) (t : Nat) : ∃ q : Bool × UartOp.Reader,
      (UartDriver.ops (SocTop.uartAt p w ram x) t).foldlM UartOp.txNext false = some q.1 ∧
      (UartDriver.ops (SocTop.uartAt p w ram x) t).foldlM UartOp.rxNext {} = some q.2 := by
  obtain ⟨hall,hs⟩ := sound_start (w := w) (x := x) hr hm hl
  obtain ⟨q,_,h⟩ := SocTop.software_sound (fits hr) hall hs t
  exact ⟨q,h⟩

/-- The shipped program on the shipped hardware: it never traps, never hangs and never changes a
word of its image, and every step is the specification's. -/
theorem hello_safe (hr : p.ramBase = 0x80000000) (hm : p.mmioBase = 0x40000000)
    (hl : Loaded ram) (t : Nat) :
    Core.exTrap (SocTop.core p w ram x t) = false ∧
      (∃ u, t ≤ u ∧ u < t+36 ∧ (Core.commit (SocTop.core p w ram x (u+2))).isSome = true) ∧
      SocTop.arch p w ram x t = SocTop.software p w ram x t ∧
      ∀ k, (h : k < words.length) →
        (SocTop.run p w ram x t).bus.ram.mem (BitVec.ofNat 15 k) = words[k] := by
  obtain ⟨hall,hs⟩ := sound_start (w := w) (x := x) hr hm hl
  refine ⟨SocTop.sound_retires (fits hr) hall hs t,?_,
    SocTop.arch_software (fits hr).base (noFetchedStore hr hm hl) t,
    fun k h => SocTop.sound_array (fits hr) hall hs t h⟩
  obtain ⟨u,htu,hut,hd⟩ := Core.finishes_in_window p.ramBase (SocTop.ports p w ram x) t
  refine ⟨u,htu,hut,?_⟩
  have htwo : (Core.commit (SocTop.core p w ram x (u+2))).isSome = _ := Core.commit_two _ _ u
  rw [htwo,Core.retires,SocTop.sound_retires (fits hr) hall hs u]
  exact (Bool.and_true _).trans hd

theorem hello_safe_typed : Core.exTrap (SocTop.core board {} array typed 20000) = false ∧
    (∃ u, 20000 ≤ u ∧ u < 20000+36 ∧
      (Core.commit (SocTop.core board {} array typed (u+2))).isSome = true) ∧
    SocTop.arch board {} array typed 20000 = SocTop.software board {} array typed 20000 ∧
    ∀ k, (h : k < words.length) →
      (SocTop.run board {} array typed 20000).bus.ram.mem (BitVec.ofNat 15 k) = words[k] :=
  hello_safe rfl rfl array_loaded 20000

/-- The line carries the bytes that it sends and nothing else, and each byte that the receiver
has presented it has read and consumed once, in order, or the byte waits. -/
theorem hello_uart (hr : p.ramBase = 0x80000000) (hm : p.mmioBase = 0x40000000)
    (hl : Loaded ram) (hD : 0 < p.divisor) :
    Serial.Carries p.divisor (Clocked.delayed (UartTx.latency p.toUartParams)
      fun t => (SocTop.uartAt p w ram x t).bind UartOp.sent)
      (fun t => (SocTop.devices p w ram x t).tx.tx) ∧
    ∀ t, ∃ s, (UartDriver.ops (SocTop.uartAt p w ram x) t).foldlM UartOp.rxNext {} = some s ∧
      UartRx.presented p.toUartParams (UartDriver.rxIn (SocTop.uartAt p w ram x)
          (fun t => (x t).uartTxdIn) (SocTop.clearAt p w ram x)) t =
        s.received ++ UartDriver.pending (SocTop.devices p w ram x t).rx := by
  have hb := (fits hr).base
  have hns := noFetchedStore (w := w) (x := x) hr hm hl
  have ho := ordered (w := w) (x := x) hr hm hl
  choose q htx hrx using ho
  refine ⟨SocTop.line_carries hb hns hD htx,fun t => ⟨(q t).2,hrx t,?_⟩⟩
  rw [SocTop.rx_run hb hns]
  exact (UartDriver.rx_known (SocTop.honest hb hns) t (hrx t)).2

end board

theorem hello_uart_typed : Serial.Carries board.divisor
      (Clocked.delayed (UartTx.latency board.toUartParams)
        fun t => (SocTop.uartAt board {} array typed t).bind UartOp.sent)
      (fun t => (SocTop.devices board {} array typed t).tx.tx) ∧
    ∃ s, (UartDriver.ops (SocTop.uartAt board {} array typed) 20000).foldlM UartOp.rxNext {} =
        some s ∧
      UartRx.presented board.toUartParams (UartDriver.rxIn (SocTop.uartAt board {} array typed)
          (fun t => (typed t).uartTxdIn) (SocTop.clearAt board {} array typed)) 20000 =
        s.received ++ UartDriver.pending (SocTop.devices board {} array typed 20000).rx := by
  have h := hello_uart (p := board) (w := {}) (x := typed) rfl rfl array_loaded (by decide)
  exact ⟨h.1,h.2 20000⟩

end SocImage

/-! Its runs are ones that the laws of the hardware are about. -/

namespace SocTop

open Core (exDone)
open SocImage

theorem implements_soc_hello :
    let m := software board {} array typed 1000
    let i := inputAt board {} array typed 1000
    arch board {} array typed 1000 = m ∧
      Core.commit (core board {} array typed (1000+2)) =
        (if exDone (core board {} array typed 1000) then (m.socEvent board.toParams i).commit
          else none) ∧
      devices board {} array typed (1000+1) =
        (devices board {} array typed 1000).stored (pinsAt board {} array typed 1000)
          (if exDone (core board {} array typed 1000) then
            (m.socAccess board.toParams i).toDevice board.toParams else none) :=
  implements_soc (by decide) (noFetchedStore rfl rfl array_loaded) 1000

theorem transmits_hello : Serial.Carries board.divisor
      (Clocked.delayed (UartTx.latency board.toUartParams)
        fun t => (uartAt board {} array typed t).bind UartOp.sent)
      fun t => (devices board {} array typed t).tx.tx :=
  transmits (by decide) (noFetchedStore rfl rfl array_loaded) (by decide) fun t => by
    obtain ⟨q,htx,_⟩ := ordered (p := board) (w := {}) (x := typed) rfl rfl array_loaded t
    rw [htx]
    rfl

/-- The program has the host's `Z`, or it waits. -/
theorem receives_hello : ∃ s,
    (UartDriver.ops (uartAt board {} array typed) 20000).foldlM UartOp.rxNext {} = some s ∧
      s.received ++ UartDriver.pending (devices board {} array typed 20000).rx = [0x5A] := by
  obtain ⟨s,hs,_,hp⟩ := receives (p := board) (w := {}) (x := typed) (by decide)
    (noFetchedStore rfl rfl array_loaded) (fun t => by
      obtain ⟨q,_,hrx⟩ := ordered (p := board) (w := {}) (x := typed) rfl rfl array_loaded t
      rw [hrx]
      rfl) 20000
  refine ⟨s,hs,hp 835 [(1000,0x5A)] (by decide) (by decide) (fun u => rfl) ?_ (by decide)⟩
  intro f f' b b' hf hf' hlt
  have hone : ∀ {g : Nat} {c : BitVec 8}, Serial.sends 835 [(1000,0x5A)] g = some c → g = 1000 := by
    intro g c hg
    simp only [Serial.sends] at hg
    grind
  rw [hone hf,hone hf'] at hlt
  exact absurd hlt (Nat.lt_irrefl _)

end SocTop

end Rvntt
