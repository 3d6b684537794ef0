import Es3Recomp.Source.Jvs.Timetable

/-!
# Two samplers of a person

Source: src/src/input/es3_input.h:29-46 (`es3_input_t`), src/src/input/es3_input.c:83-154
(`es3_input_poll`); src/src/runtime/jvs.c:573-580 (the bits of a player), 645-766 (`input_poll`).
What both ask Windows is an argument: whether a window of the process is in front, which keys are
down, and what XInput says of pad 0, when there is one. What is said once, and the pedals as
`float`s, are left out.
-/
namespace Es3Recomp.Source.Input
open Library Source.Jvs Source.Jvs.Switches

/-- The keys that are asked for. -/
inductive Key where
  | enter | leftControl | space | z | up | down | left | right | s | t | five | c
  deriving DecidableEq

structure Pad where
  buttons : UInt16
  leftTrigger : UInt8
  rightTrigger : UInt8
  thumbLX : Int16
  thumbLY : Int16

structure Devices where
  /-- `ours_in_front()` -/
  front : Bool
  /-- `GetAsyncKeyState(k) & 0x8000` -/
  held : Key → Bool
  pad : Option Pad

/-- `DOWN_`, asked only where the process is in front. -/
def Devices.down (d : Devices) (k : Key) : Bool := d.front && d.held k

/-- `b & mask` -/
def Pad.has (p : Pad) (mask : UInt16) : Bool := p.buttons &&& mask ≠ 0

/-- A button of pad 0. -/
def Devices.button (d : Devices) (mask : UInt16) : Bool := d.pad.any fun p => p.has mask

/-- A trigger, where it is pressed far enough, else what the keyboard says. -/
def trigger (pressed : UInt8) (keys : Int) : Int := if 30 < pressed then pressed.toNat else keys

/-- A stick that is pushed, else what the keyboard says. -/
def stick (thumb : Int16) (keys : Int) : Int :=
  if 8000 < thumb ∨ thumb < -8000 then thumb.toInt else keys

/-- `coin` -/
def Devices.coin (d : Devices) : Bool := d.down .five || d.button 0x0040 || d.button 0x0080

/-! ## For every board -/

/-- `es3_input_t` -/
structure Es3Input where
  x : Int := 0
  y : Int := 0
  throttle : Int := 0
  brake : Int := 0
  start : Bool := false
  fire : Bool := false
  fire2 : Bool := false
  up : Bool := false
  down : Bool := false
  left : Bool := false
  right : Bool := false
  service : Bool := false
  test : Bool := false
  any : Bool := false
  coin : Bool := false

/-- The keyboard, into fields that are zero; of two keys for one axis the later wins. -/
def es3Keys (d : Devices) : Es3Input where
  start := d.down .enter
  fire := d.down .leftControl || d.down .space
  fire2 := d.down .z
  up := d.down .up
  down := d.down .down
  left := d.down .left
  right := d.down .right
  y := if d.down .down then -32000 else if d.down .up then 32000 else 0
  throttle := if d.down .up then 255 else 0
  brake := if d.down .down then 255 else 0
  x := if d.down .right then 32000 else if d.down .left then -32000 else 0
  service := d.down .s
  test := d.down .t

def es3Pad (out : Es3Input) (p : Pad) : Es3Input :=
  { out with
    start := out.start || p.has 0x0010
    service := out.service || p.has 0x0020
    fire := out.fire || p.has 0x1000
    fire2 := out.fire2 || p.has 0x2000
    up := out.up || p.has 0x0001
    down := out.down || p.has 0x0002
    left := out.left || p.has 0x0004
    right := out.right || p.has 0x0008
    throttle := trigger p.rightTrigger out.throttle
    brake := trigger p.leftTrigger out.brake
    x := stick p.thumbLX out.x
    y := stick p.thumbLY out.y }

/-- The statics of `es3_input_poll`. -/
structure Latch where
  /-- `coin_latch` -/
  coins : UInt32
  hadCoin : Bool

def Latch.initial : Latch := ⟨0, false⟩

/-- `es3_input_poll`, with ES3_NO_INPUT or without. -/
def es3InputPoll (off : Bool) (latch : Latch) (d : Devices) : Latch × Es3Input :=
  if off then (latch, {})
  else
    let out := match d.pad with
      | some p => es3Pad (es3Keys d) p
      | none => es3Keys d
    let coins := if d.coin && !latch.hadCoin then latch.coins + 1 else latch.coins
    (⟨0, d.coin⟩,
      { out with
        any := out.start || out.fire || out.fire2 || out.up || out.down || out.left || out.right
        coin := coins ≠ 0 })

def es3Sampler (off : Bool) : Transducer Latch Devices Es3Input where
  step latch d :=
    let (latch, out) := es3InputPoll off latch d
    (latch, [out])

/-! ## For the JVS board -/

def JVS_START : UInt32 := 0x8000
def JVS_SERV : UInt32 := 0x4000
def JVS_UP : UInt32 := 0x2000
def JVS_DOWN : UInt32 := 0x1000
def JVS_LEFT : UInt32 := 0x0800
def JVS_RIGHT : UInt32 := 0x0400
def JVS_ITEM : UInt32 := 0x0200
def JVS_PUSH2 : UInt32 := 0x0100

/-- `if (pressed) bits |= bit` -/
def orIf (pressed : Bool) (bit bits : UInt32) : UInt32 := if pressed then bits ||| bit else bits

/-- `p1` after the keyboard -/
def jvsKeys (d : Devices) : UInt32 :=
  orIf (d.down .s) JVS_SERV (orIf (d.down .right) JVS_RIGHT (orIf (d.down .left) JVS_LEFT
    (orIf (d.down .down) JVS_DOWN (orIf (d.down .up) JVS_UP (orIf (d.down .z) JVS_PUSH2
      (orIf (d.down .leftControl || d.down .space) JVS_ITEM (orIf (d.down .enter) JVS_START 0)))))))

/-- `p1` after the pad -/
def jvsPad (p1 : UInt32) (p : Pad) : UInt32 :=
  orIf (p.has 0x0008) JVS_RIGHT (orIf (p.has 0x0004) JVS_LEFT (orIf (p.has 0x0002) JVS_DOWN
    (orIf (p.has 0x0001) JVS_UP (orIf (p.has 0x2000) JVS_PUSH2 (orIf (p.has 0x1000) JVS_ITEM
      (orIf (p.has 0x0020) JVS_SERV (orIf (p.has 0x0010) JVS_START p1)))))))

/-- `0x8000` is the centre; the division is C's. -/
def steering (steer : Int) : UInt32 := UInt32.ofInt (0x8000 + steer.tdiv 2)

/-- A pedal's channel, which is cut at 0xFFFF. -/
def pedal (pressed : Int) : UInt32 :=
  let channel := UInt32.ofInt ((pressed * 257).tdiv 2 + if pressed ≠ 0 then 0x8000 else 0)
  if 0xFFFF < channel then 0xFFFF else channel

def jvsSteer (d : Devices) : Int :=
  let steer := if d.down .right then 32000 else if d.down .left then -32000 else 0
  d.pad.elim steer fun p => stick p.thumbLX steer

def jvsGas (d : Devices) : Int :=
  let gas := if d.down .up then 255 else 0
  d.pad.elim gas fun p => trigger p.rightTrigger gas

def jvsBrake (d : Devices) : Int :=
  let brake := if d.down .down then 255 else 0
  d.pad.elim brake fun p => trigger p.leftTrigger brake

/-- What `input_poll` leaves in the globals. -/
def withDevices (inputs : Inputs) (d : Devices) : Inputs :=
  { inputs with
    inP1 := d.pad.elim (jvsKeys d) (jvsPad (jvsKeys d))
    inSys := orIf (d.button 0x0200) 0x80 (orIf (d.down .t) 0x80 0)
    analog := fun k =>
      if k.val = 0 then steering (jvsSteer d)
      else if k.val = 1 then pedal (jvsGas d)
      else if k.val = 2 then pedal (jvsBrake d)
      else inputs.analog k }

/-- What a pass asks of the rest: `es3_card_tap`, so many times, and whether there is a coin. -/
structure Pass where
  taps : Nat
  coin : Bool

/-- The thread of the port: the timetable with the globals, and `had_coin`. -/
structure Ticker where
  timetable : Timetable
  hadCoin : Bool

/-- `input_poll` -/
def inputPoll (off : Bool) (s : Ticker) (d : Devices) : Ticker × List Pass :=
  if off then (s, [])
  else
    (⟨{ s.timetable with inputs := withDevices s.timetable.inputs d }, d.coin⟩,
      [⟨(d.down .c).toNat + (d.button 0x8000).toNat, d.coin && !s.hadCoin⟩])

/-- One turn of `jvs_ticker` up to `finish_read`: the clock reading, and what the devices say. -/
structure Turn where
  now : UInt64
  devices : Devices

def jvsTicker (off : Bool) : Transducer Ticker Turn Pass where
  step s t := inputPoll off { s with timetable := (seqTick s.timetable t.now).1 } t.devices

/-- `seq_init`, and statics that are zero. -/
def Ticker.start (env : Option Text) (t0 : UInt64) : Ticker := ⟨seqInit env t0, false⟩

end Es3Recomp.Source.Input
