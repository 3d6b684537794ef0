import Mathlib.Data.List.Infix
import Es3Recomp.Library.Transducer
import Es3Recomp.Library.WordMemory

/-!
# The emulated I/O board, and the device node that goes with it

Source: src/src/runtime/hle_callback.c:1400-1423 (`hle_setupdi_classdevs`), 1484-1703 (the claim
and the descriptors), 1705-1787 (`ioboard_driverkey`), 1811-1998 (the Config Manager hooks),
2000-2051 (`hle_device_io_control`). A hook runs what Windows does first or answers by itself;
what Windows does is a part of each call. Traces and the lines said once are left out.
-/
namespace Es3Recomp.Source.IoBoard
open Library

/-- What a call leaves: the memory, `eax` and what `GetLastError` says. -/
structure Machine where
  mem : Memory32
  eax : UInt32
  lastError : UInt32

/-- The environment: `ES3_IOBOARD` and `ES3_IOB_ACTUAL`. -/
structure Env where
  ioboard : Bool
  actual : Option UInt32

/-- The statics. `port` is `g_iob_port`, and so on. -/
structure Board where
  port : UInt32
  hub : UInt32
  armed : Bool
  given : Bool
  root : UInt32

/-- `g_iob_port` while no port is claimed. -/
def UNCLAIMED : UInt32 := 0xFFFFFFFF

def Board.initial : Board := ⟨UNCLAIMED, 0, false, false, 0⟩

def IOB_DEVNODE : UInt32 := 0x0B9A0C10
def CR_SUCCESS : UInt32 := 0
def CR_NO_SUCH_NODE : UInt32 := 13
def CR_NO_SUCH_VAL : UInt32 := 37
def CR_BUF_SMALL : UInt32 := 26

def wr8 (mem : Memory32) (a : UInt32) (v : UInt8) : Memory32 := write mem a [v]
def wr16 (mem : Memory32) (a v : UInt32) : Memory32 := write mem a ((leBytes v).take 2)
def wr32 (mem : Memory32) (a v : UInt32) : Memory32 := write mem a (leBytes v)

/-- A pointer that may be null. -/
def wr32At (mem : Memory32) (a v : UInt32) : Memory32 := if a = 0 then mem else wr32 mem a v

/-- A wide literal with its terminator. -/
def wide (text : String) : List UInt8 := (text.toList ++ ['\x00']).flatMap fun c =>
  [UInt8.ofNat c.toNat, UInt8.ofNat (c.toNat / 0x100)]

def keyText : String := "ES3-SYNTHETIC-NAMCO-IO-BOARD"

def k_iob_key : List UInt8 := wide keyText

/-! ## The claim -/

def ioboard_new_scan (b : Board) : Board := { b with port := UNCLAIMED, hub := 0 }

def IOB_STATUS : UInt32 := 31

/-- A board in the place of what Windows said about the port. -/
def boardInfo (mem : Memory32) (buf : UInt32) : Memory32 :=
  let mem := wr8 mem (buf + 4) 18
  let mem := wr8 mem (buf + 5) 1
  let mem := wr16 mem (buf + 12) 0x0B9A
  let mem := wr16 mem (buf + 14) 0x0C10
  let mem := wr8 mem (buf + 4 + 14) 1
  let mem := wr8 mem (buf + 4 + 15) 2
  let mem := wr8 mem (buf + 4 + 16) 3
  let mem := wr8 mem (buf + 4 + 17) 1
  let mem := wr16 mem (buf + 4 + 2) 0x0200
  let mem := wr8 mem (buf + 4 + 4) 0xFF
  let mem := wr8 mem (buf + 4 + 7) 64
  let mem := wr8 mem (buf + 22) 1
  let mem := wr8 mem (buf + 23) 1
  let mem := wr8 mem (buf + 24) 0
  wr32 mem (buf + IOB_STATUS) 1

def ioboard_claim (env : Env) (b : Board) (mem : Memory32) (hub port buf len : UInt32) :
    Board × Memory32 :=
  if env.ioboard = false ∨ buf = 0 ∨ len < 35 then (b, mem)
  else if port < 1 then (b, mem)
  else if b.port = UNCLAIMED then
    if dword mem (buf + IOB_STATUS) ≠ 0 then (b, mem)
    else ({ b with hub := hub, port := port }, boardInfo mem buf)
  else (b, mem)

/-! ## Descriptors -/

def DEVICE : List UInt8 :=
  [18, 1, 0x00, 0x02, 0xFF, 0x00, 0x00, 64, 0x9A, 0x0B, 0x10, 0x0C, 0x00, 0x01, 1, 2, 3, 1]

def CONFIG : List UInt8 :=
  [9, 2, 32, 0, 1, 1, 0, 0x80, 50, 9, 4, 0, 0, 2, 0xFF, 0, 0, 0, 7, 5, 0x81, 2, 64, 0, 0,
    7, 5, 0x02, 2, 64, 0, 0]

/-- A string descriptor of the text, of which at most 30 characters are used. -/
def stringDescriptor (text : String) : List UInt8 :=
  let t := text.toList.take 30
  UInt8.ofNat (2 + t.length * 2) :: 3 :: t.flatMap fun c => [UInt8.ofNat c.toNat, 0]

/-- `src`, of which `have` is the length; none where there is no such descriptor. -/
def descriptorOf (wValue : UInt32) : Option (List UInt8) :=
  match (wValue >>> 8).toNat with
  | 1 => some DEVICE
  | 2 => some CONFIG
  | 3 =>
    match (wValue &&& 0xFF).toNat with
    | 0 => some [4, 3, 0x09, 0x04]
    | 1 => some (stringDescriptor "NBGI.")
    | 2 => some (stringDescriptor "NA-JV")
    | 3 => some (stringDescriptor "271000020001")
    | _ => none
  | _ => none

/-- None where it returns 0. -/
def ioboard_descriptor (env : Env) (b : Board) (mem : Memory32)
    (hub inbuf outbuf outlen bytesret : UInt32) : Option Memory32 :=
  if env.ioboard = false ∨ inbuf = 0 ∨ outbuf = 0 then none
  else if b.port = UNCLAIMED ∨ hub ≠ b.hub then none
  else if dword mem inbuf ≠ b.port then none
  else
    match descriptorOf (word mem (inbuf + 4 + 2)) with
    | none => none
    | some src =>
      if outlen < 12 then none
      else
        let wLength := (word mem (inbuf + 4 + 6)).toNat
        let n := min (min wLength src.length) (outlen - 12).toNat
        some (wr32At (write mem (outbuf + 12) (src.take n)) bytesret (12 + UInt32.ofNat n))

/-! ## The driver key -/

/-- None where it returns 0. The window for the walk opens only where the key is copied. -/
def ioboard_driverkey (env : Env) (b : Board) (mem : Memory32)
    (_hub inbuf outbuf outlen bytesret : UInt32) : Option (Board × Memory32) :=
  let need := UInt32.ofNat k_iob_key.length
  if env.ioboard = false ∨ inbuf = 0 ∨ outbuf = 0 then none
  else if b.port = UNCLAIMED then none
  else if dword mem inbuf ≠ b.port then none
  else if outlen < 8 then none
  else
    let mem := wr32 mem outbuf b.port
    let mem := wr32 mem (outbuf + 4) (env.actual.getD (need + 16))
    if outlen < 8 + need then some (b, wr32At mem bytesret 8)
    else
      let mem := wr32At (write mem (outbuf + 8) k_iob_key) bytesret (8 + need)
      some ({ b with armed := true, given := false }, mem)

/-! ## `DeviceIoControl` -/

structure Request where
  h : UInt32
  code : UInt32
  inbuf : UInt32
  inlen : UInt32
  outbuf : UInt32
  outlen : UInt32
  bytesret : UInt32

def NODE_INFORMATION_EX : UInt32 := 0x00220448
def NODE_INFORMATION : UInt32 := 0x0022040C
def NODE_DRIVERKEY : UInt32 := 0x00220420
def NODE_DESCRIPTOR : UInt32 := 0x00220410

/-- The port of the request, read before the call. -/
def req_port (before : Memory32) (q : Request) : UInt32 :=
  if q.inbuf = 0 then 0 else dword before q.inbuf

/-- `windows` is what the real call leaves. -/
def hle_device_io_control (env : Env) (b : Board) (before : Memory32) (q : Request)
    (windows : Machine) : Board × Machine :=
  let claimed :=
    if windows.eax ≠ 0 ∧ (q.code = NODE_INFORMATION_EX ∨ q.code = NODE_INFORMATION) then
      ioboard_claim env b windows.mem q.h (req_port before q) q.outbuf q.outlen
    else (b, windows.mem)
  let keyed : Board × Machine :=
    match (if q.code = NODE_DRIVERKEY then
      ioboard_driverkey env claimed.1 claimed.2 q.h q.inbuf q.outbuf q.outlen q.bytesret
      else none) with
    | some (b, mem) => (b, ⟨mem, 1, 0⟩)
    | none => (claimed.1, ⟨claimed.2, windows.eax, windows.lastError⟩)
  match (if keyed.2.eax = 0 ∧ q.code = NODE_DESCRIPTOR then
    ioboard_descriptor env keyed.1 keyed.2.mem q.h q.inbuf q.outbuf q.outlen q.bytesret
    else none) with
  | some mem => (keyed.1, ⟨mem, 1, 0⟩)
  | none => keyed

/-! ## The device node -/

def ioboard_has_node (env : Env) (b : Board) : Prop := env.ioboard = true ∧ b.port ≠ UNCLAIMED

instance (env : Env) (b : Board) : Decidable (ioboard_has_node env b) :=
  inferInstanceAs (Decidable (_ ∧ _))

/-- `CM_RET` where nothing but `eax` changes. -/
def Machine.ret (m : Machine) (eax : UInt32) : Machine := { m with eax := eax }

def hle_cm_get_child (env : Env) (b : Board) (before : Machine) (node : UInt32)
    (windows : Machine) : Machine :=
  if ioboard_has_node env b ∧ node = IOB_DEVNODE then before.ret CR_NO_SUCH_NODE else windows

/-- The splice point: where Windows has no more siblings. -/
def hle_cm_get_sibling (env : Env) (b : Board) (before : Machine) (out node : UInt32)
    (windows : Machine) : Board × Machine :=
  if ioboard_has_node env b ∧ node = IOB_DEVNODE then (b, before.ret CR_NO_SUCH_NODE)
  else if ioboard_has_node env b ∧ b.armed = true ∧ windows.eax ≠ CR_SUCCESS ∧ out ≠ 0 ∧
      b.given = false then
    ({ b with given := true }, { windows with
      mem := wr32 windows.mem out IOB_DEVNODE, eax := CR_SUCCESS })
  else (b, windows)

def hle_cm_get_parent (env : Env) (b : Board) (before : Machine) (out node : UInt32)
    (windows : Machine) : Machine :=
  if ioboard_has_node env b ∧ node = IOB_DEVNODE then
    { before with
      mem := wr32At before.mem out b.root
      eax := if b.root ≠ 0 then CR_SUCCESS else CR_NO_SUCH_NODE }
  else windows

/-- A string property of the node, and whether it was copied. -/
def giveProperty (m : Machine) (type buf plen : UInt32) (value : List UInt8) : Bool × Machine :=
  let need := UInt32.ofNat value.length
  let mem := wr32At m.mem type 1
  if buf = 0 ∨ plen = 0 ∨ dword mem plen < need then
    (false, { m with mem := wr32At mem plen need, eax := CR_BUF_SMALL })
  else (true, { m with mem := wr32 (write mem buf value) plen need, eax := CR_SUCCESS })

/-- Property 10 is the driver key, which closes the window; 1 is the description. -/
def hle_cm_get_devnode_prop (env : Env) (b : Board) (before : Machine)
    (node prop type buf plen : UInt32) (windows : Machine) : Board × Machine :=
  if ¬ioboard_has_node env b ∨ node ≠ IOB_DEVNODE then (b, windows)
  else if prop = 10 then
    let given := giveProperty before type buf plen k_iob_key
    (if given.1 then { b with armed := false } else b, given.2)
  else if prop = 1 then
    (b, (giveProperty before type buf plen (wide "Namco I/O Board (NA-JV)")).2)
  else (b, before.ret CR_NO_SUCH_VAL)

/-- `name` is none for the null pointer, which asks for the root. -/
def hle_cm_locate_devnode (env : Env) (b : Board) (before : Machine) (out : UInt32)
    (name : Option (List UInt16)) (windows : Machine) : Board × Machine :=
  let key := keyText.toList.map fun c => UInt16.ofNat c.toNat
  if env.ioboard = true ∧ name.any (fun text => key <:+: text) then
    (b, { before with mem := wr32At before.mem out IOB_DEVNODE, eax := CR_SUCCESS })
  else if name = none ∧ windows.eax = CR_SUCCESS ∧ out ≠ 0 then
    ({ b with root := dword windows.mem out }, windows)
  else (b, windows)

/-! ## Calls -/

/-- A call of the game, or of a library in its process, with what the memory is before it and
what the real function leaves, or would leave. -/
inductive Op where
  /-- `SetupDiGetClassDevsW`, which opens a scan -/
  | classDevs (windows : Machine)
  | deviceIoControl (q : Request) (before : Memory32) (windows : Machine)
  | getChild (out node : UInt32) (before windows : Machine)
  | getSibling (out node : UInt32) (before windows : Machine)
  | getParent (out node : UInt32) (before windows : Machine)
  | getProperty (node prop type buf plen : UInt32) (before windows : Machine)
  | locate (out : UInt32) (name : Option (List UInt16)) (before windows : Machine)

def Op.windows : Op → Machine
  | .classDevs windows => windows
  | .deviceIoControl _ _ windows => windows
  | .getChild _ _ _ windows => windows
  | .getSibling _ _ _ windows => windows
  | .getParent _ _ _ windows => windows
  | .getProperty _ _ _ _ _ _ windows => windows
  | .locate _ _ _ windows => windows

def hook (env : Env) (b : Board) : Op → Board × Machine
  | .classDevs windows => (ioboard_new_scan b, windows)
  | .deviceIoControl q before windows => hle_device_io_control env b before q windows
  | .getChild _ node before windows => (b, hle_cm_get_child env b before node windows)
  | .getSibling out node before windows => hle_cm_get_sibling env b before out node windows
  | .getParent out node before windows => (b, hle_cm_get_parent env b before out node windows)
  | .getProperty node prop type buf plen before windows =>
    hle_cm_get_devnode_prop env b before node prop type buf plen windows
  | .locate out name before windows => hle_cm_locate_devnode env b before out name windows

/-- A call with the answer that the caller gets. -/
structure Call where
  op : Op
  answer : Machine

def hooks (env : Env) : Transducer Board Op Call where
  step b op := ((hook env b op).1, [⟨op, (hook env b op).2⟩])

end Es3Recomp.Source.IoBoard
