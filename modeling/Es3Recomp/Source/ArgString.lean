import Es3Recomp.Library.ByteMemory
import Es3Recomp.Library.Traced
import Mathlib.Data.UInt

/-!
# An argument that may be a string

Source: src/src/runtime/hle_native.c:570-627 (`es3_arg_string`). Windows is missing: what
VirtualQuery reports and what WideCharToMultiByte writes are parameters. Nothing is committed at
the end of the address space, so that a pointer is a number. A byte that cannot be
read is in the memory as any other, and the trail shows that it was read.
-/
namespace Es3Recomp.Source.ArgString
open Library Library.Traced

def MEM_COMMIT : UInt32 := 0x1000

def PAGE_NOACCESS : UInt32 := 0x01

/-- `MEMORY_BASIC_INFORMATION` -/
structure RegionInfo where
  baseAddress : UInt32
  regionSize : UInt32
  state : UInt32
  protect : UInt32

structure Host where
  virtualQuery : UInt32 → Option RegionInfo
  /-- What it returns, and the bytes that it has written, with so much room. -/
  wideCharToMultiByte : List UInt16 → Nat → Int × List UInt8

/-- The buffer `buf` is written by its index. -/
inductive Access where
  | read (p n : Nat)
  | write (index n : Nat)
  deriving DecidableEq

abbrev Trail := Traced Empty Access

/-- `sizeof buf` -/
def BUF_SIZE : Nat := 128

abbrev Buffer := Nat → UInt8

def readChar (mem : Memory) (p : Nat) : Trail UInt8 := find (.read p 1) (mem p)

def wide (mem : Memory) (p : Nat) : UInt16 :=
  UInt16.ofNat ((mem p).toNat + 0x100 * (mem (p + 1)).toNat)

def readWide (mem : Memory) (p : Nat) : Trail UInt16 := find (.read p 2) (wide mem p)

def writeBuf (buf : Buffer) (index : Nat) (bytes : List UInt8) : Trail Buffer :=
  find (.write index bytes.length) (store buf index bytes)

/-- The first loop from `i` on, and the `i` it ends with; `none` where it returns. -/
def charLoop (mem : Memory) (p : Nat) : Nat → Nat → Buffer → Trail (Option Nat × Buffer)
  | 0, i, buf => pure (some i, buf)
  | left + 1, i, buf => do
    let ch ← readChar mem (p + i)
    if ch = 0 then pure (some i, buf)
    else if ch < 0x20 ∨ 0x7E < ch then pure (none, buf)
    else do
      let buf ← writeBuf buf i [ch]
      charLoop mem p left (i + 1) buf

/-- The second loop; `fin` is the end of the region. -/
def wideLoop (mem : Memory) (w fin : Nat) : Nat → Nat → Trail (Option Nat)
  | 0, n => pure (some n)
  | left + 1, n =>
    if w + 2 * (n + 1) > fin then pure none
    else do
      let ch ← readWide mem (w + 2 * n)
      if ch = 0 then pure (some n)
      -- line feed, carriage return and tab are text
      else if ch < 0x20 ∧ ch ≠ 10 ∧ ch ≠ 13 ∧ ch ≠ 9 then pure none
      else wideLoop mem w fin left (n + 1)

/-- The conversion of `n` wide characters, which are read once more. -/
def convert (host : Host) (mem : Memory) (w n : Nat) (buf : Buffer) : Trail (Int × Buffer) := do
  find (.read w (2 * n)) ()
  let (k, bytes) := host.wideCharToMultiByte ((List.range n).map fun i => wide mem (w + 2 * i))
    (BUF_SIZE - 1)
  let buf ← writeBuf buf 0 bytes
  pure (k, buf)

/-- The string as UTF-16. -/
def wideString (host : Host) (mem : Memory) (w fin : Nat) (buf : Buffer) :
    Trail (Bool × Buffer) := do
  match ← wideLoop mem w fin 200 0 with
  | none => pure (false, buf)
  | some n =>
    if n < 2 ∨ 200 ≤ n then pure (false, buf)
    else do
      let (k, buf) ← convert host mem w n buf
      if k ≤ 0 then pure (false, buf)
      else do
        let buf ← writeBuf buf k.toNat [0]
        pure (true, buf)

/-- What follows the query. -/
def committedString (host : Host) (mem : Memory) (p fin : Nat) (buf : Buffer) :
    Trail (Bool × Buffer) := do
  let (scanned, buf) ← charLoop mem p (BUF_SIZE - 1) 0 buf
  match scanned with
  | none => pure (false, buf)
  | some i =>
    if 4 ≤ i ∧ i < BUF_SIZE - 1 then do
      let buf ← writeBuf buf i [0]
      pure (true, buf)
    else wideString host mem p fin buf

/-- Whether `buf` is returned, and what is in it. -/
def es3ArgString (host : Host) (mem : Memory) (buf : Buffer) (va : UInt32) :
    Trail (Bool × Buffer) :=
  if va < 0x10000 then pure (false, buf)
  else
    match host.virtualQuery va with
    | none => pure (false, buf)
    | some mi =>
      if mi.state ≠ MEM_COMMIT ∨ mi.protect &&& PAGE_NOACCESS ≠ 0 then pure (false, buf)
      else committedString host mem va.toNat (mi.baseAddress.toNat + mi.regionSize.toNat) buf

/-! ## Calls in a row -/

/-- A call, with the layout and the memory that it finds. -/
structure ArgCall where
  host : Host
  mem : Memory
  va : UInt32

/-- `buf` is static. -/
def after (buf : Buffer) (c : ArgCall) : Buffer :=
  match (es3ArgString c.host c.mem buf c.va).outcome with
  | .ok r => r.2
  | .error e => e.elim

def afterAll (calls : List ArgCall) : Buffer := calls.foldl after fun _ => 0

end Es3Recomp.Source.ArgString
