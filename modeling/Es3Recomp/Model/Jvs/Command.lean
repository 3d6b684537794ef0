import Es3Recomp.Source.Jvs.Packet

/-!
# JVS commands as a language

A packet is a list of commands: `Command` is one command with its argument bytes,
`encode` its bytes in a packet, `decode` the command at an index. `effect` and
`report` are its meaning: what it does to the port and what it answers.
`command_eq` connects this to the source, whose `switch` moves two cursors
through the bytes: every turn of the loop executes the command decoded at its
cursor. What a packet does then follows from the list of commands it visits,
which `visits` computes from the bytes alone.
-/
namespace Es3Recomp.Model.Jvs
open Library Source.Jvs

inductive Command where
  | reset (confirm : UInt8)
  | setAddress (address : UInt8)
  | ioIdent
  | cmdRev
  | jvsRev
  | commVer
  | featChk
  | swInp (players bytes : UInt8)
  | coinP (slots : UInt8)
  | adRead (channels : UInt8)
  | rotary (channels : UInt8)
  | rotaryAlt (channels : UInt8)
  | coinDecrease (slot hi lo : UInt8)
  | coinIncrease (slot hi lo : UInt8)
  | output (payload : { bytes : List UInt8 // bytes.length < 256 })
  | analogOut (a b : UInt8)
  | charOut (a : UInt8)
  | commsMethod (a : UInt8)
  | f3 (a b : UInt8)
  | unknown (code : UInt8)
  deriving DecidableEq

namespace Command

def opcode : Command → UInt8
  | reset _ => 0xF0
  | setAddress _ => 0xF1
  | ioIdent => 0x10
  | cmdRev => 0x11
  | jvsRev => 0x12
  | commVer => 0x13
  | featChk => 0x14
  | swInp _ _ => 0x20
  | coinP _ => 0x21
  | adRead _ => 0x22
  | rotary _ => 0x25
  | rotaryAlt _ => 0x26
  | coinDecrease _ _ _ => 0x30
  | coinIncrease _ _ _ => 0x31
  | output _ => 0x32
  | analogOut _ _ => 0x33
  | charOut _ => 0x34
  | commsMethod _ => 0xF2
  | f3 _ _ => 0xF3
  | unknown code => code

def args : Command → List UInt8
  | reset a | setAddress a | coinP a | adRead a | rotary a | rotaryAlt a | charOut a
  | commsMethod a => [a]
  | swInp a b | analogOut a b | f3 a b => [a, b]
  | coinDecrease a b c | coinIncrease a b c => [a, b, c]
  | output payload => UInt8.ofNat payload.1.length :: payload.1
  | ioIdent | cmdRev | jvsRev | commVer | featChk | unknown _ => []

def encode (c : Command) : List UInt8 := c.opcode :: c.args

/-- The bytes the command takes in its packet. -/
def size (c : Command) : Nat := 1 + c.args.length

/-- How many of its argument bytes the source reads; it steps over the others. -/
def argReads : Command → Nat
  | setAddress _ | coinP _ | adRead _ | rotary _ | rotaryAlt _ | output _ => 1
  | swInp _ _ => 2
  | coinDecrease _ _ _ => 3
  | _ => 0

/-- RESET returns from the packet, an unknown command gives it up. -/
def stops : Command → Bool
  | reset _ | unknown _ => true
  | _ => false

def effect (p : JvsPort) : Command → JvsPort
  | reset _ => Source.Jvs.setAddress p 0
  | setAddress a => Source.Jvs.setAddress p a
  | coinDecrease slot hi lo =>
    Source.Jvs.coinDecrease p slot ((hi.toUInt32 <<< 8) ||| lo.toUInt32)
  | _ => p

/-- The report a command appends to the reply: nothing for the two that stop. -/
def report (m : Machine) (inputs : Inputs) (p : JvsPort) : Command → List UInt8
  | reset _ | unknown _ => []
  | ioIdent => 0x01 :: JVS_IDENT
  | cmdRev => [0x01, 0x13]
  | jvsRev => [0x01, 0x30]
  | commVer => [0x01, 0x10]
  | featChk => 0x01 :: featChkReport
  | swInp players bytes => 0x01 :: swInpReport m inputs players.toNat bytes.toNat
  | coinP slots => 0x01 :: coinPReport p slots.toNat
  | adRead channels => 0x01 :: adReadReport inputs channels.toNat
  | rotary channels | rotaryAlt channels => 0x01 :: rotaryReport channels.toNat
  | setAddress _ | coinDecrease _ _ _ | coinIncrease _ _ _ | output _ | analogOut _ _ | charOut _
  | commsMethod _ | f3 _ _ => [0x01]

/-- The length of the report, which neither the port nor the switches change. -/
def reportLength : Command → Nat
  | reset _ | unknown _ => 0
  | ioIdent => 67
  | cmdRev | jvsRev | commVer => 2
  | featChk => 18
  | swInp players bytes => 2 + players.toNat * bytes.toNat
  | coinP n | adRead n | rotary n | rotaryAlt n => 1 + 2 * n.toNat
  | setAddress _ | coinDecrease _ _ _ | coinIncrease _ _ _ | output _ | analogOut _ _ | charOut _
  | commsMethod _ | f3 _ _ => 1

/-- The command at index `i`, arguments past the packet included. -/
def decode (data : Nat → UInt8) (i : Nat) : Command :=
  match data i with
  | 0xF0 => reset (data (i + 1))
  | 0xF1 => setAddress (data (i + 1))
  | 0x10 => ioIdent
  | 0x11 => cmdRev
  | 0x12 => jvsRev
  | 0x13 => commVer
  | 0x14 => featChk
  | 0x20 => swInp (data (i + 1)) (data (i + 2))
  | 0x21 => coinP (data (i + 1))
  | 0x22 => adRead (data (i + 1))
  | 0x25 => rotary (data (i + 1))
  | 0x26 => rotaryAlt (data (i + 1))
  | 0x30 => coinDecrease (data (i + 1)) (data (i + 2)) (data (i + 3))
  | 0x31 => coinIncrease (data (i + 1)) (data (i + 2)) (data (i + 3))
  | 0x32 =>
    output ⟨(List.range (data (i + 1)).toNat).map fun k => data (i + 2 + k), by
      simpa using (data (i + 1)).toNat_lt⟩
  | 0x33 => analogOut (data (i + 1)) (data (i + 2))
  | 0x34 => charOut (data (i + 1))
  | 0xF2 => commsMethod (data (i + 1))
  | 0xF3 => f3 (data (i + 1)) (data (i + 2))
  | code => unknown code

theorem size_pos (c : Command) : 0 < c.size := by
  unfold size
  omega

@[simp] theorem length_report (m : Machine) (inputs : Inputs) (p : JvsPort) (c : Command) :
    (c.report m inputs p).length = c.reportLength := by
  cases c <;> simp [report, reportLength] <;> omega

end Command

/-! ## One turn of the source's loop -/

/-- The indices of `data` a command at index `i` reads. -/
def readsAt (i : Nat) (c : Command) : List Nat := (List.range (1 + c.argReads)).map (i + ·)

/-- The cursors after a command that did not stop the packet. -/
def Scan.after (m : Machine) (inputs : Inputs) (c : Command) (s : Scan) : Scan where
  port := c.effect s.port
  i := s.i + c.size
  body := s.body ++ c.report m inputs s.port
  reads := s.reads ++ readsAt s.i c
  top := max s.top (s.body.length + c.reportLength)

/-- How a turn ends, given the command it executes. -/
def turnOf (m : Machine) (inputs : Inputs) (n : Nat) (c : Command) (s : Scan) : Switch :=
  match c with
  | .reset _ => .returned (Scan.after m inputs c s)
  | .unknown _ => .broke { Scan.after m inputs c s with body := [0x02], i := n }
  | _ => .broke (Scan.after m inputs c s)

/-- The source's `switch` executes the command decoded at the loop's cursor. -/
theorem command_eq (m : Machine) (inputs : Inputs) (data : Nat → UInt8) (n : Nat) (s : Scan)
    (written : s.body.length ≤ s.top) :
    command m inputs data n (s.fetch data).1 (s.fetch data).2 =
      turnOf m inputs n (Command.decode data s.i) s := by
  have nested : ∀ a b k : Nat, max (max a (b + 1)) (b + (1 + k)) = max a (b + (1 + k)) := by
    intro a b k
    omega
  have untouched : max s.top s.body.length = s.top := Nat.max_eq_left written
  unfold Command.decode
  simp only [Scan.fetch]
  split <;>
    simp_all [command, turnOf, Scan.after, Scan.fetch, Scan.put, Scan.skip, ignored, readsAt,
      Command.argReads, Command.size, Command.args, Command.effect, Command.report,
      Command.reportLength, List.range_succ, Nat.add_assoc]
  all_goals omega

end Es3Recomp.Model.Jvs
