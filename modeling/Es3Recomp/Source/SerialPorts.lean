import Es3Recomp.Library.Atoi
import Es3Recomp.Source.Writes

/-!
# The serial ports as the game finds them

Source: src/src/runtime/hle_callback.c:885-921 (`drive_stub_open`, `is_drive_stub`), 923-987
(`hle_create_file`), 989-1075 (`comm_ok` and the calls on a port's settings), 1116-1237 (the reads
and writes), 1239-1246 (`hle_close_handle`); src/src/runtime/jvs.c:768-864 (`jvs_ticker`,
`es3_jvs_set_timeouts`, `es3_jvs_is_port`, `es3_jvs_open`); src/src/runtime/card.c:120-126,
658-712 (`es3_card_tap`, `ticker`, `es3_card_is_port`, `es3_card_open`). What Windows answers is
part of each call, and so are the arguments that the hooks read from the stack and the name that
`es3_arg_string` makes of the first one. The last error, the watching of ports (ES3_TRACE_CARD)
and the announcing of paths (ES3_TRACE_FILES) are diagnostics and left out.
-/
namespace Es3Recomp.Source.SerialPorts
open Library Source.Writes
open Library.Atoi (atoi)
open Source.Jvs (Word Env Machine Inputs Effect)

/-! ## Names -/

def digit (c : Char) : Nat := c.toNat - '0'.toNat

def skipDevicePath : Text → Text
  | '\\' :: '\\' :: '.' :: '\\' :: p => p
  | p => p

/-- The number behind COM, of one digit or two; what comes behind them is not looked at. -/
def comPort (name : Text) : Option Nat :=
  match skipDevicePath name with
  | c :: o :: m :: d :: p =>
    if (c = 'C' ∨ c = 'c') ∧ (o = 'O' ∨ o = 'o') ∧ (m = 'M' ∨ m = 'm') ∧ d.isDigit then
      match p with
      | e :: _ => some (if e.isDigit then digit d * 10 + digit e else digit d)
      | [] => some (digit d)
    else none
  | _ => none

/-- The environment variables. -/
structure Settings where
  noCom : Bool
  noJvs : Bool
  jvsPort : Option Text
  card : Bool
  cardPort : Option Text
  driveStub : Option Text

/-! ## Opening -/

inductive Device where
  | board
  | reader
  | drive
  deriving DecidableEq

structure State where
  /-- the two `g_ready` -/
  jvsReady : Bool
  cardReady : Bool
  handles : Handles
  ports : Ports

/-- What a CreateFile comes with, and what Windows answers if it is asked: CreateEventW for each
device, and CreateFile. -/
structure Opening where
  name : Option Text
  event : Device → Word
  load : CardReader.LoadWorld
  native : Word

variable (settings : Settings) (world : CardReader.World)

def es3JvsOpen (s : State) (o : Opening) (name : Text) : State × Word :=
  if settings.noJvs then (s, 0)
  else
    match comPort name with
    | none => (s, 0)
    | some n =>
      if (n : Int) ≠ (settings.jvsPort.map atoi).getD 1 then (s, 0)
      else
        let s := if s.jvsReady then s
          else { s with jvsReady := true, handles.jvs := o.event .board }
        (s, s.handles.jvs)

def es3CardOpen (s : State) (o : Opening) (name : Text) : State × Word :=
  if ¬ settings.card then (s, 0)
  else
    match comPort name with
    | none => (s, 0)
    | some n =>
      if (n : Int) ≠ (settings.cardPort.map atoi).getD 4 then (s, 0)
      else
        let s := if s.cardReady then s
          else { s with
            cardReady := true
            handles.card := o.event .reader
            ports.reader.card := CardReader.cardLoad o.load }
        (s, s.handles.card)

def driveStubOpen (s : State) (o : Opening) (name : Text) : State × Word :=
  match settings.driveStub, comPort name with
  | some want, some n =>
    if (n : Int) ≠ atoi want then (s, 0)
    else
      let s := if s.handles.driveStub ≠ 0 then s
        else { s with handles.driveStub := o.event .drive }
      (s, s.handles.driveStub)
  | _, _ => (s, 0)

/-- How an event ends. -/
inductive Outcome where
  /-- `JVS_RET`: what the game gets, how many arguments are popped, and what is stored for it -/
  | answered (device : Device) (eax : Word) (argc : Nat) (stores : List Effect)
  /-- INVALID_HANDLE_VALUE -/
  | refused
  /-- `hle_call_native` -/
  | native
  /-- a turn of one of the threads that the runtime starts -/
  | turn
  /-- the thread has not been started -/
  | absent
  deriving DecidableEq

/-- What came out of the two ports, and how the event ended. -/
structure Done where
  out : List Writes.Output
  outcome : Outcome

def hleCreateFile (s : State) (o : Opening) : State × Done :=
  match o.name with
  | none => (s, ⟨[], .native⟩)
  | some name =>
    if settings.noCom ∧ (comPort name).isSome then (s, ⟨[], .refused⟩)
    else
      let (s, h) := es3JvsOpen settings s o name
      if h ≠ 0 then (s, ⟨[], .answered .board h 7 []⟩)
      else
        let (s, h) := es3CardOpen settings s o name
        if h ≠ 0 then (s, ⟨[], .answered .reader h 7 []⟩)
        else
          let (s, h) := driveStubOpen settings s o name
          if h ≠ 0 then (s, ⟨[], .answered .drive h 7 []⟩) else (s, ⟨[], .native⟩)

/-! ## Calls on a handle -/

def es3JvsIsPort (s : State) (h : Word) : Bool := s.jvsReady && isHandle s.handles.jvs h

def es3CardIsPort (s : State) (h : Word) : Bool := s.cardReady && isHandle s.handles.card h

def isDriveStub (s : State) (h : Word) : Bool := isHandle s.handles.driveStub h

/-- A call that succeeds on each of the three. -/
def onAnyPort (s : State) (h : Word) (argc : Nat) (stores : List Effect) : State × Done :=
  if es3JvsIsPort s h then (s, ⟨[], .answered .board 1 argc stores⟩)
  else if es3CardIsPort s h then (s, ⟨[], .answered .reader 1 argc stores⟩)
  else if isDriveStub s h then (s, ⟨[], .answered .drive 1 argc stores⟩)
  else (s, ⟨[], .native⟩)

/-- One operation of a port, and how the call ends after it. -/
def onPort (s : State) (op : Writes.Op) (ends : List Writes.Output → Outcome) : State × Done :=
  let (ports, out) := Writes.step world s.ports op
  ({ s with ports }, ⟨out, ends out⟩)

/-- The hooks that are `comm_ok` and no more. -/
inductive Setup where
  | setupComm
  | purgeComm
  | setCommState
  | setCommMask
  deriving DecidableEq

def Setup.argc : Setup → Nat
  | .setupComm => 3
  | .purgeComm | .setCommState | .setCommMask => 2

def commOk (s : State) (h : Word) (argc : Nat) : State × Done := onAnyPort s h argc []

/-- COMMTIMEOUTS: where it is, and the fields that are read. -/
structure Timeouts where
  addr : Word
  interval : UInt32
  mult : UInt32
  const : UInt32

def hleSetCommTimeouts (s : State) (h : Word) (t : Timeouts) : State × Done :=
  let (s, out) :=
    if es3JvsIsPort s h ∧ t.addr ≠ 0 then
      let (ports, out) := Writes.step world s.ports (.board (.setTimeouts t.interval t.mult t.const))
      ({ s with ports }, out)
    else (s, [])
  let (s, done) := commOk s h 2
  (s, { done with out })

def hleCancelIoEx (s : State) (h : Word) : State × Done :=
  if es3CardIsPort s h then onPort world s (.reader .cancel) fun _ => .answered .reader 1 2 []
  else if es3JvsIsPort s h then onPort world s (.board .cancel) fun _ => .answered .board 1 2 []
  else (s, ⟨[], .native⟩)

def hleGetCommState (s : State) (h dcb : Word) : State × Done :=
  onAnyPort s h 2
    (if dcb = 0 then [] else [.store dcb (List.replicate 28 0), .wr32 dcb 28])

def hleGetCommTimeouts (s : State) (h t : Word) : State × Done :=
  onAnyPort s h 2 (if t = 0 then [] else [.store t (List.replicate 20 0)])

/-- MS_DSR_ON -/
def hleGetCommModemStatus (s : State) (h p : Word) : State × Done :=
  onAnyPort s h 2 (if p = 0 then [] else [.wr32 p 0x0020])

/-- The stores by which a write tells its count. -/
def toldEffects : Told → List Effect
  | .outParameter addr n => [.wr32 addr n]
  | .overlapped ovl n => [.wr32 ovl 0, .wr32 (ovl + 4) n]
  | .routine thread c => [.queueApc thread c]

def written (target : Target) (told : List Told) : Outcome :=
  match target with
  | .jvs => .answered .board 1 5 (told.flatMap toldEffects)
  | .card => .answered .reader 1 5 (told.flatMap toldEffects)
  | .driveStub => .answered .drive 1 5 (told.flatMap toldEffects)
  | .native => .native

def hleWriteFile (s : State) (m : Machine) (env : Env) (call : Writes.Call) (count : Word) :
    State × Done :=
  let (ports, out) := Writes.hleWriteFile world ⟨s.handles, m, env⟩ s.ports call count
  ({ s with ports },
    ⟨out, written (writeFileTarget s.handles call.handle) (writeFileTold count call.n)⟩)

def hleWriteFileEx (s : State) (m : Machine) (env : Env) (call : Writes.Call) (t : Telling) :
    State × Done :=
  let (ports, out) := Writes.hleWriteFileEx world ⟨s.handles, m, env⟩ s.ports call t
  ({ s with ports },
    ⟨out, written (writeFileExTarget s.handles call.handle) (writeFileExTold t call.n)⟩)

/-- What a port stored into the game's buffers. -/
def bytesOf (out : List Writes.Output) : List UInt8 :=
  out.flatMap fun
    | .board (.effect e) => e.bytes
    | .reader (.effect e) => e.bytes
    | _ => []

/-- `wr32(read2, got)` -/
def countRead (read : Word) (got : UInt32) : List Effect :=
  if read = 0 then [] else [.wr32 read got]

def hleReadFile (s : State) (h buf : Word) (n : UInt32) (read : Word) : State × Done :=
  if es3JvsIsPort s h then
    onPort world s (.board (.read buf n)) fun out =>
      .answered .board 1 5 (countRead read (UInt32.ofNat (bytesOf out).length))
  else if isDriveStub s h then (s, ⟨[], .answered .drive 1 5 (countRead read 0)⟩)
  else if es3CardIsPort s h then
    onPort world s (.reader (.read buf n)) fun out =>
      .answered .reader 1 5 (countRead read (UInt32.ofNat (bytesOf out).length))
  else (s, ⟨[], .native⟩)

/-- A ReadFileEx: what `DuplicateHandle` stored, the clock, and the arguments. -/
structure Posting where
  env : Env
  thread : Word
  posted : UInt64
  handle : Word
  buf : Word
  n : UInt32
  ovl : Word
  routine : Word

/-- The drive's port is not asked for here. -/
def hleReadFileEx (s : State) (p : Posting) : State × Done :=
  if es3CardIsPort s p.handle then
    onPort world s (.reader (.postRead p.env p.thread p.posted p.buf p.n p.ovl p.routine))
      fun _ => .answered .reader 1 5 []
  else if es3JvsIsPort s p.handle then
    onPort world s (.board (.postRead p.env p.thread p.posted p.buf p.n p.ovl p.routine))
      fun _ => .answered .board 1 5 []
  else (s, ⟨[], .native⟩)

def hleCloseHandle (s : State) (h : Word) : State × Done := onAnyPort s h 1 []

/-! ## Everything that happens -/

/-- What the board's ticker does under the lock. -/
inductive Ticker where
  | poll (inputs : Inputs)
  | insertCoin
  | finishRead (env : Env)

def Ticker.op : Ticker → Jvs.Op
  | .poll inputs => .poll inputs
  | .insertCoin => .insertCoin
  | .finishRead env => .tick env

inductive Event where
  | createFile (o : Opening)
  | setup (f : Setup) (h : Word)
  | setCommTimeouts (h : Word) (t : Timeouts)
  | cancelIoEx (h : Word)
  | getCommState (h dcb : Word)
  | getCommTimeouts (h t : Word)
  | getCommModemStatus (h p : Word)
  | writeFile (m : Machine) (env : Env) (call : Writes.Call) (count : Word)
  | writeFileEx (m : Machine) (env : Env) (call : Writes.Call) (t : Telling)
  | readFile (h buf : Word) (n : UInt32) (read : Word)
  | readFileEx (p : Posting)
  | closeHandle (h : Word)
  | jvsTicker (t : Ticker)
  | cardTicker (env : Env)
  | cardTap (now : UInt64)

def step (s : State) : Event → State × Done
  | .createFile o => hleCreateFile settings s o
  | .setup f h => commOk s h f.argc
  | .setCommTimeouts h t => hleSetCommTimeouts world s h t
  | .cancelIoEx h => hleCancelIoEx world s h
  | .getCommState h dcb => hleGetCommState s h dcb
  | .getCommTimeouts h t => hleGetCommTimeouts s h t
  | .getCommModemStatus h p => hleGetCommModemStatus s h p
  | .writeFile m env call count => hleWriteFile world s m env call count
  | .writeFileEx m env call t => hleWriteFileEx world s m env call t
  | .readFile h buf n read => hleReadFile world s h buf n read
  | .readFileEx p => hleReadFileEx world s p
  | .closeHandle h => hleCloseHandle s h
  | .jvsTicker t =>
    if s.jvsReady then onPort world s (.board t.op) fun _ => .turn else (s, ⟨[], .absent⟩)
  | .cardTicker env =>
    if s.cardReady then onPort world s (.reader (.tick env)) fun _ => .turn
    else (s, ⟨[], .absent⟩)
  | .cardTap now => onPort world s (.reader (.tap now)) fun _ => .turn

/-- An event with what became of it. -/
structure Entry where
  event : Event
  done : Done

def process : Transducer State Event Entry where
  step s e :=
    let (s, done) := step settings world s e
    (s, [⟨e, done⟩])

/-- Nothing is open, and no card is loaded. -/
def State.initial (card : CardReader.Card) : State :=
  ⟨false, false, ⟨0, 0, 0⟩, Jvs.Node.initial, CardReader.CardPort.initial, card, 0, 0⟩

end Es3Recomp.Source.SerialPorts
