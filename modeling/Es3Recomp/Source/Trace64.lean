import Mathlib.Logic.Function.Basic

/-!
# The trace ring of the 64-bit runtime

Source: src/src/runtime64/trace64.c:27-69 (`es3_trace`, `es3_trace_dump`), 93-112
(`es3_trace_tail`). A `long` is 32 bits wide and `g_head++` goes from the greatest to the least.
`ring` is indexed by any `long`, so that a store beside the array would be seen. Of what is
printed, the image base is left out; the name of an import is a parameter.
-/
namespace Es3Recomp.Source.Trace64

/-- `1 << 20` -/
def TRACE_N : Int32 := 1048576

/-- `trace_ent_t` -/
structure TraceEnt where
  va : UInt64
  /-- a C string, or NULL -/
  what : Option String
  deriving DecidableEq

structure Trace where
  ring : Int32 → TraceEnt
  head : Int32
  calls : UInt64

/-- The globals before the first call. -/
def Trace.initial : Trace := ⟨fun _ => ⟨0, none⟩, 0, 0⟩

/-- The index of the slot for a value of the head. -/
def slotOf (head : Int32) : Int32 := head &&& (TRACE_N - 1)

def es3Trace (s : Trace) (e : TraceEnt) : Trace where
  ring := Function.update s.ring (slotOf s.head) e
  head := s.head + 1
  calls := s.calls + 1

/-- `  <what> <va> <name>` -/
structure Line where
  what : String
  va : UInt64
  name : Option String
  deriving DecidableEq

def lineOf (importName : UInt64 → Option String) (e : TraceEnt) : Option Line :=
  e.what.map fun what => ⟨what, e.va, importName e.va⟩

/-- The entries that `for (long k = n; k > 0; k--)` comes to, `n` given as what is left of it. -/
def readBack (s : Trace) : Nat → List TraceEnt
  | 0 => []
  | k + 1 => s.ring (slotOf (s.head - Int32.ofNat (k + 1))) :: readBack s k

/-- The lines of that loop: an entry without a name is skipped. -/
def lines (importName : UInt64 → Option String) (s : Trace) (n : Int32) : List Line :=
  (readBack s n.toNatClampNeg).filterMap (lineOf importName)

structure Dump where
  why : String
  dispatches : UInt64
  last : Int32
  lines : List Line
  /-- `[trace] wrote es3_trace64.txt (%ld entries)` -/
  entries : Int32

def es3TraceDump (importName : UInt64 → Option String) (s : Trace) (why : String) : Dump :=
  let n := if s.head < TRACE_N then s.head else TRACE_N
  ⟨why, s.calls, TRACE_N, lines importName s n, n⟩

structure Tail where
  last : Int32
  lines : List Line

def es3TraceTail (importName : UInt64 → Option String) (s : Trace) (n : Int32) : Tail :=
  let have_ := if s.head < TRACE_N then s.head else TRACE_N
  let n := if have_ < n then have_ else n
  ⟨n, lines importName s n⟩

end Es3Recomp.Source.Trace64
