import Es3Recomp.Source.CardReader.Port
import Es3Recomp.Source.Jvs.Runs

/-!
# Writes: what the game's WriteFile and WriteFileEx reach

Source: src/src/runtime/hle_callback.c:918-921 (`is_drive_stub`), 1116-1181
(`hle_write_file`, `hle_write_file_ex`), src/src/runtime/jvs.c:922-942
(`es3_jvs_complete_write`), src/src/runtime/card.c:670-673, 765-782 (`es3_card_is_port`,
`es3_card_complete_write`). The caller notes are diagnostics and left out.
-/
namespace Es3Recomp.Source.Writes
open Library
open Source.Jvs (Word Env Completion Machine)

/-- The handles of what the hooks answer for, null while it is not open. -/
structure Handles where
  jvs : Word
  driveStub : Word
  card : Word

/-- `g_ready && h && (HANDLE)h == g_p.handle` -/
def isHandle (handle h : Word) : Bool := h ≠ 0 && h = handle

/-- What a handle stands for. -/
inductive Target where
  | jvs
  /-- the steering drive's port: written to, never heard from -/
  | driveStub
  | card
  /-- a handle of Windows: `hle_call_native` -/
  | native
  deriving DecidableEq

/-- The handle, and the bytes that the buffer holds; their number is 32 bits wide. -/
structure Call where
  handle : Word
  bytes : List UInt8
  short : bytes.length < 2 ^ 32

/-- `A32(2)` -/
def Call.n (call : Call) : UInt32 := UInt32.ofNat call.bytes.length

/-- One way in which the game is told how many bytes were written. -/
inductive Told where
  /-- `wr32(written, n)` -/
  | outParameter (addr : Word) (n : UInt32)
  /-- `wr32(ovl, 0); wr32(ovl + 4, n)` -/
  | overlapped (ovl : Word) (n : UInt32)
  /-- the completion routine, queued to the calling thread -/
  | routine (thread : Word) (c : Completion)
  deriving DecidableEq

def Told.count : Told → UInt32
  | .outParameter _ n => n
  | .overlapped _ n => n
  | .routine _ c => c.bytes

/-- What became of a write that was not handed on to Windows. -/
structure Report where
  target : Target
  /-- the bytes put behind those in the port's input buffer -/
  appended : List UInt8
  told : List Told
  /-- `eax` -/
  returned : UInt32

/-- Both ports, with the board behind one and the card reader behind the other. -/
structure Ports where
  board : Source.Jvs.Node
  reader : Source.CardReader.Reader

inductive Output where
  | board (o : Source.Jvs.Output)
  | reader (o : Source.CardReader.Output)
  | report (r : Report)
  | native

/-- What a call finds: the handles, the machine the C was compiled for, the clock and
the Windows calls of the read that the write may finish. -/
structure Setting where
  handles : Handles
  machine : Machine
  env : Env

def Setting.jvsWrite (s : Setting) (bytes : List UInt8) : Source.Jvs.Op :=
  .write s.machine s.env bytes

def Setting.cardWrite (s : Setting) (bytes : List UInt8) : Source.CardReader.Op :=
  .write s.env bytes

/-- The part the two hooks share: hand the bytes to what the handle stands for, tell the
game, return 1. -/
def handOver (world : Source.CardReader.World) (s : Setting) (p : Ports) (bytes : List UInt8)
    (target : Target) (told : List Told) : Ports × List Output :=
  match target with
  | .jvs =>
    let (board, out) := Source.Jvs.step p.board (s.jvsWrite bytes)
    ({ p with board }, out.map .board ++
      [.report ⟨.jvs, Source.Jvs.accepted p.board.port bytes, told, 1⟩])
  | .driveStub => (p, [.report ⟨.driveStub, [], told, 1⟩])
  | .card =>
    let (reader, out) := Source.CardReader.step world p.reader (s.cardWrite bytes)
    ({ p with reader }, out.map .reader ++
      [.report ⟨.card, Source.CardReader.accepted p.reader.port bytes, told, 1⟩])
  | .native => (p, [.native])

def writeFileTarget (handles : Handles) (h : Word) : Target :=
  if isHandle handles.jvs h then .jvs
  else if isHandle handles.driveStub h then .driveStub
  else if isHandle handles.card h then .card
  else .native

def writeFileTold (written : Word) (n : UInt32) : List Told :=
  if written = 0 then [] else [.outParameter written n]

def hleWriteFile (world : Source.CardReader.World) (s : Setting) (p : Ports) (call : Call)
    (written : Word) : Ports × List Output :=
  handOver world s p call.bytes (writeFileTarget s.handles call.handle)
    (writeFileTold written call.n)

/-- The drive's port is not asked for here. -/
def writeFileExTarget (handles : Handles) (h : Word) : Target :=
  if isHandle handles.jvs h then .jvs else if isHandle handles.card h then .card else .native

/-- `es3_jvs_complete_write` and `es3_card_complete_write`, the same text twice; `self` is
what `DuplicateHandle` stored, null when it failed. -/
def completeWrite (env : Env) (self ovl : Word) (bytes : UInt32) (routine : Word) : List Told :=
  if routine = 0 ∨ ¬ env.mallocOk ∨ self = 0 ∨ ¬ env.queueOk then []
  else [.routine self ⟨routine, 0, bytes, ovl⟩]

/-- Where WriteFileEx is to tell its count, and how telling it goes. -/
structure Telling where
  ovl : Word
  routine : Word
  env : Env
  self : Word

def writeFileExTold (t : Telling) (n : UInt32) : List Told :=
  (if t.ovl = 0 then [] else [.overlapped t.ovl n]) ++ completeWrite t.env t.self t.ovl n t.routine

def hleWriteFileEx (world : Source.CardReader.World) (s : Setting) (p : Ports) (call : Call)
    (t : Telling) : Ports × List Output :=
  handOver world s p call.bytes (writeFileExTarget s.handles call.handle)
    (writeFileExTold t call.n)

/-- Writes, and whatever else is called on the ports. -/
inductive Op where
  | writeFile (s : Setting) (call : Call) (written : Word)
  | writeFileEx (s : Setting) (call : Call) (t : Telling)
  | board (op : Source.Jvs.Op)
  | reader (op : Source.CardReader.Op)

def step (world : Source.CardReader.World) (p : Ports) : Op → Ports × List Output
  | .writeFile s call written => hleWriteFile world s p call written
  | .writeFileEx s call t => hleWriteFileEx world s p call t
  | .board op =>
    let (board, out) := Source.Jvs.step p.board op
    ({ p with board }, out.map .board)
  | .reader op =>
    let (reader, out) := Source.CardReader.step world p.reader op
    ({ p with reader }, out.map .reader)

def ports (world : Source.CardReader.World) : Transducer Ports Op Output := ⟨step world⟩

end Es3Recomp.Source.Writes
