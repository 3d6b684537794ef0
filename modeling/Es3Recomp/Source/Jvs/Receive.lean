import Es3Recomp.Source.Jvs.Packet
import Es3Recomp.Source.Jvs.Read

/-!
# Receiving: whole packets out of whatever the game has written

Source: src/src/runtime/jvs.c:335-382 (`consume_input`), 866-878 (`es3_jvs_write`).
The checksum loop of the source runs over the same `k` that the un-escape loop
left behind, so the bytes dropped after a packet are `size + 2`, not the bytes
the packet used; `consumePass` drops what the source drops.
-/
namespace Es3Recomp.Source.Jvs
open Library

/-- Find SYNC: anything before it is line noise by definition. -/
def findSync (inp : List UInt8) : List UInt8 := inp.dropWhile (· ≠ JVS_SYNC)

/-- `body[blen++] = b; if (blen == 2) size = body[1]` -/
def storeByte (body : List UInt8) (size : Nat) (b : UInt8) : List UInt8 × Nat :=
  let body := body ++ [b]
  (body, if body.length = 2 then b.toNat else size)

/-- The test that ends the un-escape loop. -/
def complete (body : List UInt8) (size : Nat) : Bool :=
  2 ≤ body.length ∧ size ≠ 0 ∧ body.length = size + 2

/-- The un-escape loop from the current byte on. `none` is the return that waits
for the byte an escape announces; `some` is `body` and `size` after the loop. -/
def unescape : List UInt8 → List UInt8 → Nat → Option (List UInt8 × Nat)
  | [], body, size => some (body, size)
  | b :: rest, body, size =>
    if body.length < 256 then
      if b = JVS_ESCAPE then
        match rest with
        | [] => none
        | c :: rest =>
          let (body, size) := storeByte body size (c + 1)
          if complete body size then some (body, size) else unescape rest body size
      else
        let (body, size) := storeByte body size b
        if complete body size then some (body, size) else unescape rest body size
    else some (body, size)

/-- The packet at the front of a buffer that begins with SYNC: its un-escaped
bytes and its size byte, or `none` for one of the early returns. -/
def scanPacket (inp : List UInt8) : Option (List UInt8 × Nat) :=
  if inp.length < 3 then none
  else
    match unescape (inp.drop 1) [] 0 with
    | none => none
    | some (body, size) =>
      if size = 0 ∨ body.length < size + 2 then none else some (body, size)

/-- `for (k = 0; k < size + 1; k++) sum += body[k]` -/
def bodySum (body : List UInt8) (size : Nat) : Nat :=
  ((body.take (size + 1)).map UInt8.toNat).sum

/-- What one packet turned out to be: handed to `handle_packet`, or answered with
a sum error. -/
inductive Event where
  | packet (dest : UInt8) (data : List UInt8)
  | sumError (dest : UInt8) (data : List UInt8)
  deriving DecidableEq, Repr

def Event.dest : Event → UInt8
  | .packet dest _ => dest
  | .sumError dest _ => dest

def Event.data : Event → List UInt8
  | .packet _ data => data
  | .sumError _ data => data

/-- Which of the two the un-escaped bytes are. -/
def eventOf (body : List UInt8) (size : Nat) : Event :=
  let dest := body.getD 0 0
  let data := (body.drop 2).take (size - 1)
  if bodySum body size % 256 ≠ (body.getD (size + 1) 0).toNat then .sumError dest data
  else .packet dest data

/-- `body + 2`, the pointer `handle_packet` is given: the data, the checksum, and
what the array still holds after them. -/
def bodyPointer (m : Machine) (p : JvsPort) (body : List UInt8) : Nat → UInt8 :=
  pointer (body.drop 2) (fun i => m.stale p (i + 2))

/-- A packet as it was handled: the port it met, what it was, the pointer behind
its data, the body given to `reply` for it. -/
structure Handled where
  before : JvsPort
  event : Event
  data : Nat → UInt8
  replied : Option (List UInt8)

/-- Answer one complete packet: a sum error here, else `handle_packet`. -/
def answer (m : Machine) (inputs : Inputs) (p : JvsPort) (body : List UInt8) (size : Nat) :
    JvsPort × Option (List UInt8) :=
  match eventOf body size with
  | .sumError _ _ => (reply p [0x03], some [0x03])
  | .packet dest _ =>
    let h := handlePacket m inputs p dest (bodyPointer m p body) (size - 1)
    (h.port, h.replied)

/-- One turn of the `for (;;)` of `consume_input`: the port after it, and the
packet it took unless it returned. -/
def consumePass (m : Machine) (inputs : Inputs) (p : JvsPort) : JvsPort × Option Handled :=
  let p := p.setInp (findSync p.inp)
  match scanPacket p.inp with
  | none => (p, none)
  | some (body, size) =>
    let (q, replied) := answer m inputs p body size
    (q.setInp (q.inp.drop (size + 2)),
      some ⟨p, eventOf body size, bodyPointer m p body, replied⟩)

/-- The `for (;;)`. Every turn that takes a packet shortens the buffer, so one
turn more than its bytes is enough: `consumeLoop_enough`. -/
def consumeLoop (m : Machine) (inputs : Inputs) : Nat → JvsPort → JvsPort × List Handled
  | 0, p => (p, [])
  | turns + 1, p =>
    match consumePass m inputs p with
    | (p, none) => (p, [])
    | (p, some h) =>
      let rest := consumeLoop m inputs turns p
      (rest.1, h :: rest.2)

def consumeInput (m : Machine) (inputs : Inputs) (p : JvsPort) : JvsPort × List Handled :=
  consumeLoop m inputs (p.inp.length + 1) p

/-- The bytes of a write that the buffer still has room for. -/
def accepted (p : JvsPort) (bytes : List UInt8) : List UInt8 :=
  bytes.take (FIFO_SIZE - p.inp.length)

/-- `es3_jvs_write`: append what fits, take the whole packets, finish the read. -/
def es3JvsWrite (m : Machine) (inputs : Inputs) (env : Env) (p : JvsPort)
    (bytes : List UInt8) : JvsPort × List Handled × List Effect :=
  let p := p.setInp (p.inp ++ accepted p bytes)
  let (p, handled) := consumeInput m inputs p
  let (p, effects) := finishRead env p
  (p, handled, effects)

end Es3Recomp.Source.Jvs
