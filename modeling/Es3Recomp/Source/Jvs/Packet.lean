import Es3Recomp.Source.Jvs.Port

/-!
# Answering one packet

Source: src/src/runtime/jvs.c:188-333 (`handle_packet`). `data` is the C pointer: a
byte for every index, also for those past the `n` bytes of the packet, which the
source can read. `body` grows at `len`, so the array and its length are one list;
it is not cut at the 256 bytes the source's array has. Two ghost fields record
the accesses: `reads` the indices of `data` read, `top` the bytes of `body` that
have been written at some time. Results past an access outside its array are
what the source computes as long as the stray access meets nothing else.
-/
namespace Es3Recomp.Source.Jvs
open Library

/-- What C leaves open and the machine decides: the bytes of an uninitialised
stack array, and a 32-bit shift by 32 or more. -/
structure Machine where
  stale : JvsPort → Nat → UInt8
  wideShift : UInt32 → Nat → UInt32

/-- A machine whose stack holds zeros and whose shifter takes the count modulo 32. -/
def Machine.x86 : Machine where
  stale := fun _ _ => 0
  wideShift := fun w count => w >>> UInt32.ofNat (count % 32)

/-- `w >> count` on a `uint32_t`. -/
def shiftRight (m : Machine) (w : UInt32) (count : Nat) : UInt32 :=
  if count < 32 then w >>> UInt32.ofNat count else m.wideShift w count

/-- The cursors of `handle_packet` and what they have produced. -/
structure Scan where
  port : JvsPort
  i : Nat
  body : List UInt8
  reads : List Nat
  top : Nat

namespace Scan

/-- `data[i++]` -/
def fetch (data : Nat → UInt8) (s : Scan) : UInt8 × Scan :=
  (data s.i, { s with i := s.i + 1, reads := s.reads ++ [s.i] })

/-- `body[len++] = ...`, once for each byte. -/
def put (s : Scan) (bytes : List UInt8) : Scan :=
  { s with body := s.body ++ bytes, top := max s.top (s.body.length + bytes.length) }

/-- `i += k` -/
def skip (s : Scan) (k : Nat) : Scan := { s with i := s.i + k }

end Scan

/-- How the `switch` of one command ends: `return`, or `break` to the loop. -/
inductive Switch where
  | returned (s : Scan)
  | broke (s : Scan)

/-- The bytes of SWINP after its report byte: TEST and service, then each player. -/
def swInpReport (m : Machine) (inputs : Inputs) (players bytes : Nat) : List UInt8 :=
  (inputs.swSys ||| inputs.inSys).toUInt8 ::
    (List.range players).flatMap fun p =>
      let w := if p = 0 then inputs.swP1 ||| inputs.inP1
        else if p = 1 then inputs.swP2 else 0
      (List.range bytes).map fun b => (shiftRight m w (8 * (bytes - 1 - b))).toUInt8

/-- The counter of a slot as COINP reports it; a slot the node lacks reads 0. -/
def coinOf (p : JvsPort) (slot : Nat) : UInt32 :=
  if h : slot < JVS_COIN_SLOTS then p.coin ⟨slot, h⟩ else 0

def coinPReport (p : JvsPort) (slots : Nat) : List UInt8 :=
  (List.range slots).flatMap fun s =>
    [((coinOf p s >>> 8) &&& 0x3F).toUInt8, (coinOf p s &&& 0xFF).toUInt8]

/-- Mid-scale for a channel nothing drives. -/
def analogOf (inputs : Inputs) (channel : Nat) : UInt32 :=
  if h : channel < 8 then inputs.analog ⟨channel, h⟩ else 0x8000

def adReadReport (inputs : Inputs) (channels : Nat) : List UInt8 :=
  (List.range channels).flatMap fun k =>
    [(analogOf inputs k >>> 8).toUInt8, (analogOf inputs k).toUInt8]

def rotaryReport (channels : Nat) : List UInt8 :=
  (List.range channels).flatMap fun _ => [0x00, 0x00]

def featChkReport : List UInt8 :=
  [0x01, JVS_PLAYERS, 13, 0x00,
   0x02, UInt8.ofNat JVS_COIN_SLOTS, 0x00, 0x00,
   0x03, JVS_ANALOG, 16, 0x00,
   0x12, 8, 0x00, 0x00,
   0x00]

def setAddress (p : JvsPort) (a : UInt8) : JvsPort := { p with address := a }

/-- `*c = *c > amount ? *c - amount : 0` on the slot's counter; slots count from 1. -/
def coinDecrease (p : JvsPort) (slot : UInt8) (amount : UInt32) : JvsPort :=
  if h : 1 ≤ slot.toNat ∧ slot.toNat ≤ JVS_COIN_SLOTS then
    let k : Fin JVS_COIN_SLOTS := ⟨slot.toNat - 1, by omega⟩
    let c := p.coin k
    { p with coin := Function.update p.coin k (if c > amount then c - amount else 0) }
  else p

/-- The commands that are acknowledged and otherwise ignored: `i += k`. -/
def ignored (s : Scan) (k : Nat) : Switch := .broke ((s.skip k).put [0x01])

/-- The `switch` of `handle_packet`, after `cmd = data[i++]`. -/
def command (m : Machine) (inputs : Inputs) (data : Nat → UInt8) (n : Nat) (cmd : UInt8)
    (s : Scan) : Switch :=
  match cmd with
  | 0xF0 =>                                       -- RESET and the byte that confirms it
    let s := s.skip 1
    .returned { s with port := setAddress s.port 0 }
  | 0xF1 =>                                       -- SET ADDRESS
    let (a, s) := s.fetch data
    .broke ({ s with port := setAddress s.port a }.put [0x01])
  | 0x10 => .broke ((s.put [0x01]).put JVS_IDENT) -- IOIDENT
  | 0x11 => .broke (s.put [0x01, 0x13])           -- CMDREV
  | 0x12 => .broke (s.put [0x01, 0x30])           -- JVSREV
  | 0x13 => .broke (s.put [0x01, 0x10])           -- COMMVER
  | 0x14 => .broke ((s.put [0x01]).put featChkReport)
  | 0x20 =>                                       -- SWINP: players, bytes
    let (players, s) := s.fetch data
    let (bytes, s) := s.fetch data
    .broke ((s.put [0x01]).put (swInpReport m inputs players.toNat bytes.toNat))
  | 0x21 =>                                       -- COINP: slots
    let (slots, s) := s.fetch data
    .broke ((s.put [0x01]).put (coinPReport s.port slots.toNat))
  | 0x22 =>                                       -- ADREAD: channels
    let (ch, s) := s.fetch data
    .broke ((s.put [0x01]).put (adReadReport inputs ch.toNat))
  | 0x25 | 0x26 =>                                -- rotary encoder read
    let (ch, s) := s.fetch data
    .broke ((s.put [0x01]).put (rotaryReport ch.toNat))
  | 0x30 =>                                       -- coin decrease
    let (slot, s) := s.fetch data
    let (hi, s) := s.fetch data
    let (lo, s) := s.fetch data
    let amount := (hi.toUInt32 <<< 8) ||| lo.toUInt32
    .broke ({ s with port := coinDecrease s.port slot amount }.put [0x01])
  | 0x32 =>                                       -- general purpose output
    let (nb, s) := s.fetch data
    ignored s nb.toNat
  | 0x31 => ignored s 3                           -- coin increase
  | 0x33 => ignored s 2                           -- analog output
  | 0x34 => ignored s 1                           -- character output
  | 0xF2 => ignored s 1                           -- comms method
  | 0xF3 => ignored s 2
  | _ => .broke { s with body := [0x02], i := n } -- status 2: I did not understand that

/-- The `while (i < n)` loop. Every turn moves `i` forward, so `n` turns are
enough: `packetLoop_enough`. -/
def packetLoop (m : Machine) (inputs : Inputs) (data : Nat → UInt8) (n : Nat) :
    Nat → Scan → Switch
  | 0, s => .broke s
  | turns + 1, s =>
    if s.i < n then
      let (cmd, s) := s.fetch data
      match command m inputs data n cmd s with
      | .returned s => .returned s
      | .broke s =>
        if s.body.length > 256 - 80 then .broke s
        else packetLoop m inputs data n turns s
    else .broke s

/-- What `handle_packet` leaves: the port, the body it handed to `reply` if it
came to that, and the two access records. -/
structure Handling where
  port : JvsPort
  replied : Option (List UInt8)
  reads : List Nat
  top : Nat

def handlePacket (m : Machine) (inputs : Inputs) (p : JvsPort) (dest : UInt8)
    (data : Nat → UInt8) (n : Nat) : Handling :=
  if dest ≠ JVS_BROADCAST ∧ dest ≠ p.address then ⟨p, none, [], 0⟩
  else
    -- body[len++] = 0x01: status, understood
    match packetLoop m inputs data n n ⟨p, 0, [0x01], [], 1⟩ with
    | .returned s => ⟨s.port, none, s.reads, s.top⟩
    | .broke s => ⟨reply s.port s.body, some s.body, s.reads, s.top⟩

/-- The pointer to the first byte of an array: its bytes, then what lies past it. -/
def pointer (bytes : List UInt8) (past : Nat → UInt8) : Nat → UInt8 :=
  fun i => bytes.getD i (past i)

/-! ## How long the reports are -/

@[simp] theorem length_JVS_IDENT : JVS_IDENT.length = 66 := by decide

@[simp] theorem length_featChkReport : featChkReport.length = 17 := rfl

@[simp] theorem length_swInpReport (m : Machine) (inputs : Inputs) (players bytes : Nat) :
    (swInpReport m inputs players bytes).length = 1 + players * bytes := by
  simp [swInpReport, List.length_flatMap, Nat.add_comm]

@[simp] theorem length_coinPReport (p : JvsPort) (slots : Nat) :
    (coinPReport p slots).length = 2 * slots := by
  simp [coinPReport, List.length_flatMap, Nat.mul_comm]

@[simp] theorem length_adReadReport (inputs : Inputs) (channels : Nat) :
    (adReadReport inputs channels).length = 2 * channels := by
  simp [adReadReport, List.length_flatMap, Nat.mul_comm]

@[simp] theorem length_rotaryReport (channels : Nat) :
    (rotaryReport channels).length = 2 * channels := by
  simp [rotaryReport, List.length_flatMap, Nat.mul_comm]

end Es3Recomp.Source.Jvs
