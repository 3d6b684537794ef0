import Mathlib.Data.UInt
import Es3Recomp.Library.RingQueue
import Es3Recomp.Library.Transducer
import Es3Recomp.Source.CardReader.Session
import Es3Recomp.Source.Jvs.Read

/-!
# The reader's port: frames in, frames out, reads

Source: src/src/runtime/card.c:261-325 (`CardPort`, `out_push`, `out_avail`, `out_take`,
`send_frame`), 571-608 (`consume`), 626-666 (`finish_read`, `ticker`), 718-763,
784-789 (the calls on the port). The two files declare the same `Completion` and
make the same Windows calls, so a read's effects are those of the JVS port.
-/
namespace Es3Recomp.Source.CardReader
open Library
open Source.Jvs (Word Effect Env)

def FIFO : Nat := 4096

structure CardPort where
  out : Ring UInt8 FIFO
  /-- `in[0 .. in_len)` -/
  inp : List UInt8
  readPending : Bool
  readBuf : Word
  readLen : UInt32
  readOvl : Word
  readRoutine : Word
  readThread : Word
  readDeadline : UInt64

/-- `static CardPort g_p`: zero in every field. -/
def CardPort.initial : CardPort where
  out := ⟨fun _ => 0, ⟨0, by decide⟩, ⟨0, by decide⟩⟩
  inp := []
  readPending := false
  readBuf := 0
  readLen := 0
  readOvl := 0
  readRoutine := 0
  readThread := 0
  readDeadline := 0

/-- The port, the card, and the tap. -/
structure Reader where
  port : CardPort
  card : Card
  presentUntil : UInt64
  /-- how many commands have been carried out; the code keeps no such count -/
  commands : Nat

/-- What a command finds: the clock when it looks for the card, and how a save goes. -/
structure Moment where
  tick : UInt64
  save : SaveOutcome

/-- What the reader runs under: ES3_CARD_ALWAYS, and what the k-th command finds. -/
structure World where
  always : Bool
  moment : Nat → Moment

def Reader.start (w : LoadWorld) : Reader := ⟨CardPort.initial, cardLoad w, 0, 0⟩

def Reader.setInp (r : Reader) (inp : List UInt8) : Reader :=
  { r with port := { r.port with inp := inp } }

/-! ## Frames -/

/-- The bytes of `send_frame`: preamble, start, length and its checksum, the body, the
data checksum, postamble. -/
def frame (body : List UInt8) : List UInt8 :=
  let n := UInt8.ofNat body.length
  [0x00, 0x00, 0xFF, n, 0 - n] ++ body ++ [0 - body.sum, 0x00]

/-- `out_push` of each byte: what does not fit is dropped. -/
def sendFrame (p : CardPort) (body : List UInt8) : CardPort :=
  { p with out := p.out.pushAll (frame body) }

/-- What one turn of `consume` finds at `in + i`. -/
inductive Turn where
  /-- fewer than five bytes, or a frame that is not complete: stop -/
  | wait
  /-- noise, an ACK, a NACK: move on by `n` bytes -/
  | skip (n : Nat)
  /-- a frame: its body and the data checksum byte behind it -/
  | frame (body : List UInt8) (dcs : UInt8)
  deriving DecidableEq

/-- `6 <= g_p.in_len - i ? 6 : 5` -/
def ackLength (inp : List UInt8) : Nat := if 6 ≤ inp.length then 6 else 5

/-- One turn of the loop, on the bytes from `in + i` on. -/
def turn (inp : List UInt8) : Turn :=
  if inp.length < 5 then .wait
  else if ¬ (inp.getD 0 0 = 0x00 ∧ inp.getD 1 0 = 0x00 ∧ inp.getD 2 0 = 0xFF) then .skip 1
  else
    let len := inp.getD 3 0
    let lcs := inp.getD 4 0
    if len = 0x00 ∧ lcs = 0xFF then .skip (ackLength inp)
    else if len = 0xFF ∧ lcs = 0x00 then .skip (ackLength inp)
    else if len + lcs ≠ 0 then .skip 1
    else
      let need := 5 + len.toNat + 2
      if inp.length < need then .wait
      else .frame ((inp.drop 5).take len.toNat) (inp.getD (5 + len.toNat) 0)

/-- A command as it was carried out: the body and the checksum byte of its frame, the
card before and after it, the body given to `send_frame`, and the bytes of that frame
that `out` had room for. -/
structure Executed where
  body : List UInt8
  dcs : UInt8
  before : Card
  after : Card
  reply : List UInt8
  sent : List UInt8

/-- `command(in + i + 5, len)` -/
def execute (world : World) (r : Reader) (body : List UInt8) (dcs : UInt8) : Reader × Executed :=
  let now := world.moment r.commands
  let inField := cardInField world.always now.tick r.presentUntil
  let (card, reply) := command inField now.save r.card body
  if reply = [] then
    ({ r with card := card, commands := r.commands + 1 }, ⟨body, dcs, r.card, card, [], []⟩)
  else
    ({ r with card := card, commands := r.commands + 1, port := sendFrame r.port reply },
      ⟨body, dcs, r.card, card, reply, (frame reply).take r.port.out.room⟩)

/-- The `while` of `consume`. A turn that does not stop takes bytes away, so one turn
more than there are bytes is enough. -/
def consumeLoop (world : World) : Nat → Reader → Reader × List Executed
  | 0, r => (r, [])
  | turns + 1, r =>
    match turn r.port.inp with
    | .wait => (r, [])
    | .skip n => consumeLoop world turns (r.setInp (r.port.inp.drop n))
    | .frame body dcs =>
      let (q, done) := execute world r body dcs
      let rest := consumeLoop world turns (q.setInp (q.port.inp.drop (5 + body.length + 2)))
      (rest.1, done :: rest.2)

def consume (world : World) (r : Reader) : Reader × List Executed :=
  consumeLoop world (r.port.inp.length + 1) r

/-! The same loop by its index into `in`, which stays as it is until the loop is left. -/

def turnAt (inp : List UInt8) (i : Nat) : Turn :=
  if inp.length < i + 5 then .wait
  else if ¬ (inp.getD i 0 = 0x00 ∧ inp.getD (i + 1) 0 = 0x00 ∧ inp.getD (i + 2) 0 = 0xFF) then
    .skip 1
  else
    let len := inp.getD (i + 3) 0
    let lcs := inp.getD (i + 4) 0
    if len = 0x00 ∧ lcs = 0xFF then .skip (if 6 ≤ inp.length - i then 6 else 5)
    else if len = 0xFF ∧ lcs = 0x00 then .skip (if 6 ≤ inp.length - i then 6 else 5)
    else if len + lcs ≠ 0 then .skip 1
    else
      let need := 5 + len.toNat + 2
      if inp.length < i + need then .wait
      else .frame ((inp.drop (i + 5)).take len.toNat) (inp.getD (i + 5 + len.toNat) 0)

/-- `i` and the reader after one turn, and what was carried out; `none` when the loop is left. -/
def roundAt (world : World) (s : Nat × Reader) : Option (Option Executed × (Nat × Reader)) :=
  match turnAt s.2.port.inp s.1 with
  | .wait => none
  | .skip n => some (none, (s.1 + n, s.2))
  | .frame body dcs =>
    let (q, done) := execute world s.2 body dcs
    some (some done, (s.1 + (5 + body.length + 2), q))

/-- The `memmove` behind the loop. -/
def moveDown (i : Nat) (r : Reader) : Reader := r.setInp (r.port.inp.drop i)

/-! ## Reads -/

/-- The OVERLAPPED of the transfer: STATUS_SUCCESS and the byte count. -/
def overlappedResult (p : CardPort) (got : UInt32) : List Effect :=
  if p.readOvl = 0 then [] else [.wr32 p.readOvl 0, .wr32 (p.readOvl + 4) got]

/-- The completion routine, queued to the thread that posted the read. -/
def queuedRoutine (env : Env) (p : CardPort) (got : UInt32) : List Effect :=
  if p.readRoutine = 0 ∨ p.readThread = 0 ∨ ¬ env.mallocOk ∨ ¬ env.queueOk then []
  else [.queueApc p.readThread ⟨p.readRoutine, 0, got, p.readOvl⟩]

def finishRead (env : Env) (p : CardPort) : CardPort × List Effect :=
  if ¬ p.readPending then (p, [])
  else if p.out.avail < p.readLen.toNat ∧ (p.readDeadline = 0 ∨ env.tick < p.readDeadline) then (p, [])
  else
    -- short read on timeout
    let want := if p.out.avail < p.readLen.toNat then p.out.avail else p.readLen.toNat
    let taken := Ring.take want p.out
    let got := UInt32.ofNat taken.1.length
    ({ p with out := taken.2, readPending := false },
      .store p.readBuf taken.1 :: (overlappedResult p got ++ queuedRoutine env p got))

def es3CardRead (p : CardPort) (buf : Word) (n : UInt32) : CardPort × List Effect :=
  let taken := Ring.take n.toNat p.out
  ({ p with out := taken.2 }, [.store buf taken.1])

/-- `es3_card_post_read`: `thread` is what `DuplicateHandle` stored, null when it
failed; `posted` is the clock when the deadline is computed. -/
def es3CardPostRead (env : Env) (p : CardPort) (thread : Word) (posted : UInt64)
    (buf : Word) (n : UInt32) (ovl routine : Word) : CardPort × List Effect :=
  finishRead env { p with
    readThread := thread
    readPending := true
    readBuf := buf
    readLen := n
    readOvl := ovl
    readRoutine := routine
    readDeadline := posted + 100 }

def es3CardCancel (p : CardPort) : CardPort := { p with readPending := false }

/-! ## The calls on the port, in any order -/

/-- The bytes of a write that the buffer still has room for. -/
def accepted (p : CardPort) (bytes : List UInt8) : List UInt8 := bytes.take (FIFO - p.inp.length)

/-- The reader with what it accepts of a write behind what it has. -/
def received (r : Reader) (bytes : List UInt8) : Reader :=
  r.setInp (r.port.inp ++ accepted r.port bytes)

/-- `es3_card_write`: append what fits, take the whole frames, finish the read. -/
def es3CardWrite (world : World) (env : Env) (r : Reader) (bytes : List UInt8) :
    Reader × List Executed × List Effect :=
  let (r, executed) := consume world (received r bytes)
  let (port, effects) := finishRead env r.port
  ({ r with port := port }, executed, effects)

inductive Op where
  | write (env : Env) (bytes : List UInt8)
  | read (buf : Word) (n : UInt32)
  | postRead (env : Env) (thread : Word) (posted : UInt64) (buf : Word) (n : UInt32)
      (ovl routine : Word)
  /-- the ticker's `finish_read()` -/
  | tick (env : Env)
  | cancel
  /-- `es3_card_tap` at the clock reading `now` -/
  | tap (now : UInt64)

/-- What an operation lets an observer see: commands carried out, effects on the game. -/
inductive Output where
  | executed (e : Executed)
  | effect (e : Effect)

def step (world : World) (r : Reader) : Op → Reader × List Output
  | .write env bytes =>
    let (r, executed, effects) := es3CardWrite world env r bytes
    (r, executed.map .executed ++ effects.map .effect)
  | .read buf n =>
    let (port, effects) := es3CardRead r.port buf n
    ({ r with port := port }, effects.map .effect)
  | .postRead env thread posted buf n ovl routine =>
    let (port, effects) := es3CardPostRead env r.port thread posted buf n ovl routine
    ({ r with port := port }, effects.map .effect)
  | .tick env =>
    let (port, effects) := finishRead env r.port
    ({ r with port := port }, effects.map .effect)
  | .cancel => ({ r with port := es3CardCancel r.port }, [])
  | .tap now => ({ r with presentUntil := now + CARD_DWELL_MS }, [])

def reader (world : World) : Transducer Reader Op Output := ⟨step world⟩

end Es3Recomp.Source.CardReader
