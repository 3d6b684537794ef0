import Mathlib.Algebra.GroupWithZero.Nat
import Es3Recomp.Library.RingQueue

/-!
# The JVS port: its state, the byte pipe to the game, and a reply

Source: src/src/runtime/jvs.c:52-184 (constants, `JvsPort`, `out_push`, `out_avail`,
`out_take`, `out_byte`, `reply`). The input array and its length are one list,
the output array and its two indices are a `Ring`. The port's handle, its lock
and the trace output are left out: no modelled function computes with them.
-/
namespace Es3Recomp.Source.Jvs
open Library

def JVS_SYNC : UInt8 := 0xE0
def JVS_ESCAPE : UInt8 := 0xD0
def JVS_BROADCAST : UInt8 := 0xFF

/-- The identification string, with the nul that `sizeof` counts. -/
def JVS_IDENT : List UInt8 :=
  "namco ltd.;I/O PCB-4072;ver1.00;JPN,Multipurpose + Rotary Encoder".toList.map
    (fun c => UInt8.ofNat c.toNat) ++ [0x00]

def JVS_PLAYERS : UInt8 := 2
def JVS_COIN_SLOTS : Nat := 3
def JVS_ANALOG : UInt8 := 8
def FIFO_SIZE : Nat := 4096

/-- A Windows handle or a guest address of the 32-bit process; 0 is null. -/
abbrev Word := UInt32

/-- The globals a report is made of: the timetable's switches (`g_sw_*`), the
keyboard's and the pad's (`g_in_*`), and the analog channels. -/
structure Inputs where
  swSys : UInt32
  swP1 : UInt32
  swP2 : UInt32
  inSys : UInt32
  inP1 : UInt32
  analog : Fin 8 → UInt32

def Inputs.initial : Inputs where
  swSys := 0
  swP1 := 0
  swP2 := 0
  inSys := 0
  inP1 := 0
  analog := fun k => if k = 1 ∨ k = 2 then 0 else 0x8000

structure JvsPort where
  /-- node to game, waiting to be read -/
  out : Ring UInt8 FIFO_SIZE
  /-- game to node, waiting for a full packet: `in[0 .. in_len)` -/
  inp : List UInt8
  /-- 0 until the master assigns one -/
  address : UInt8
  coin : Fin JVS_COIN_SLOTS → UInt32
  readPending : Bool
  readBuf : Word
  readLen : UInt32
  readOvl : Word
  readRoutine : Word
  readThread : Word
  /-- 0: wait for the bytes, however long -/
  readDeadline : UInt64
  toInterval : UInt32
  toRdMult : UInt32
  toRdConst : UInt32

/-- `static JvsPort g_port`: zero in every field. -/
def JvsPort.initial : JvsPort where
  out := ⟨fun _ => 0, ⟨0, by decide⟩, ⟨0, by decide⟩⟩
  inp := []
  address := 0
  coin := fun _ => 0
  readPending := false
  readBuf := 0
  readLen := 0
  readOvl := 0
  readRoutine := 0
  readThread := 0
  readDeadline := 0
  toInterval := 0
  toRdMult := 0
  toRdConst := 0

/-- The port with another output ring, or with another input buffer. -/
def JvsPort.setOut (p : JvsPort) (out : Ring UInt8 FIFO_SIZE) : JvsPort := { p with out := out }

def JvsPort.setInp (p : JvsPort) (inp : List UInt8) : JvsPort := { p with inp := inp }

/-- full: drop, never block -/
def outPush (p : JvsPort) (b : UInt8) : JvsPort := p.setOut (p.out.push b)

def outAvail (p : JvsPort) : Nat := p.out.avail

def outTake (p : JvsPort) (n : Nat) : List UInt8 × JvsPort :=
  let taken := Ring.take n p.out
  (taken.1, p.setOut taken.2)

def outByte (p : JvsPort) (b : UInt8) : JvsPort :=
  if b = JVS_SYNC ∨ b = JVS_ESCAPE then outPush (outPush p JVS_ESCAPE) (b - 1)
  else outPush p b

/-- A whole reply: SYNC, "to the master", the length, the body, the sum. `unsigned`
sums of at most 255 bytes do not wrap, so `sum` is a natural number here. -/
def reply (p : JvsPort) (body : List UInt8) : JvsPort :=
  let n := body.length
  if 255 < n + 1 then p
  else
    let p := outPush p JVS_SYNC
    let p := outByte p 0x00
    let p := outByte p (UInt8.ofNat (n + 1))
    let p := body.foldl outByte p
    let sum := 0x00 + (n + 1) + (body.map UInt8.toNat).sum
    outByte p (UInt8.ofNat (sum % 256))

section Fields
variable (p : JvsPort) (o : Ring UInt8 FIFO_SIZE) (l : List UInt8)

@[simp] theorem setOut_out : (p.setOut o).out = o := rfl

@[simp] theorem setInp_inp : (p.setInp l).inp = l := rfl
@[simp] theorem setInp_out : (p.setInp l).out = p.out := rfl
@[simp] theorem setInp_address : (p.setInp l).address = p.address := rfl
@[simp] theorem setInp_coin : (p.setInp l).coin = p.coin := rfl
@[simp] theorem setInp_readPending : (p.setInp l).readPending = p.readPending := rfl

end Fields

end Es3Recomp.Source.Jvs
