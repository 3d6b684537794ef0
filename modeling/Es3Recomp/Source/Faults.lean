import Es3Recomp.Library.FirstSeen
import Es3Recomp.Source.Dispatch
import Es3Recomp.Source.HostCode
import Es3Recomp.Source.ThunkCache

/-!
# The vectored exception handler

Source: src/src/runtime/crash.c:724-950 (`es3_veh`), 1109-1124 (`es3_watch_mem_hit`). One
exception is handled after the other. Of a line that is printed, what varies is kept; the reports
on the trail and on the address space that follow some of them are left out. `g_wm_addr` is set
by another thread, so it comes with the exception; that thread may have set it at any time.
-/
namespace Es3Recomp.Source.Faults
open Library Library.FirstSeen Source.Dispatch

def EXCEPTION_ACCESS_VIOLATION : UInt32 := 0xC0000005
def EXCEPTION_ILLEGAL_INSTRUCTION : UInt32 := 0xC000001D
def EXCEPTION_PRIV_INSTRUCTION : UInt32 := 0xC0000096
def EXCEPTION_SINGLE_STEP : UInt32 := 0x80000004

/-- `information` is the part of `ExceptionInformation` that `NumberParameters` says is there. -/
structure ExceptionRecord where
  code : UInt32
  address : UInt32
  information : List UInt32

structure Context where
  eip : UInt32
  esp : UInt32
  dr6 : UInt32
  deriving DecidableEq

/-- An exception on a thread, with that thread's stack as its TEB has it. -/
structure Exception where
  record : ExceptionRecord
  context : Context
  thread : UInt32
  stackLimit : UInt32
  stackBase : UInt32
  /-- `g_wm_addr` -/
  watched : UInt32

inductive Disposition where
  | continueExecution
  | continueSearch
  deriving DecidableEq

inductive Line where
  /-- `[watchmem]` -/
  | written (eip : UInt32)
  /-- `!! fault` -/
  | raw (code address : UInt32)
  /-- `[seh] thread ... raised OutputDebugString's exception` -/
  | uncovered (thread esp lo hi : UInt32)
  /-- `[seh] guest raised` -/
  | raised (code address : UInt32)
  /-- `[r2l]` -/
  | direct (va count : UInt32)
  /-- `=== the guest faulted` -/
  | faulted (code address owner : UInt32)
  /-- `%08X could not be ...` -/
  | couldNotBe (bad kind : UInt32)
  /-- `That address is the import sentinel for` -/
  | sentinel (bad : UInt32)
  deriving DecidableEq

/-- The statics of the handler, and `g_thunks`. -/
structure Handler where
  cache : ThunkCache.State
  said : Nat → UInt32
  told : Nat → UInt32
  r2lFaults : UInt32

/-- Before the first exception: the lock is ready when the handler is installed. -/
def Handler.initial : Handler :=
  ⟨{ ThunkCache.initial with ready := true }, fun _ => 0, fun _ => 0, 0⟩

/-- What does not change: the image, the lifted functions, and what `es3_callback` answers. -/
structure World (φ : Type) where
  image : HostCode.Image
  symbols : Trail.Symbols
  table : List (Entry φ)
  index : Option (Index φ)
  es3Callback : ThunkCache.Callback
  /-- `dispatch_owner` -/
  owner : UInt32 → UInt32

structure Handled where
  handler : Handler
  disposition : Disposition
  context : Context
  lines : List Line

/-- `ExceptionInformation[0] == 8`, and the address. -/
def executeFault (r : ExceptionRecord) : Option UInt32 :=
  if r.code = EXCEPTION_ACCESS_VIOLATION then
    match r.information with
    | kind :: va :: _ => if kind = 8 then some va else none
    | _ => none
  else none

def isFault (code : UInt32) : Bool :=
  code = EXCEPTION_ACCESS_VIOLATION || code = EXCEPTION_ILLEGAL_INSTRUCTION ||
    code = EXCEPTION_PRIV_INSTRUCTION

/-- `es3_watch_mem_hit` -/
def es3WatchMemHit (e : Exception) : Bool :=
  e.watched ≠ 0 && e.record.code = EXCEPTION_SINGLE_STEP && e.context.dr6 &&& 1 ≠ 0

/-- The line about a thread whose TEB does not have its stack, and `told` with it. -/
def noteUncovered (h : Handler) (e : Exception) : Handler × List Line :=
  if e.context.esp < e.stackLimit ∨ e.stackBase ≤ e.context.esp then
    match claim 0 h.told e.thread 16 0 with
    | some k =>
      ({ h with told := Function.update h.told k e.thread },
        [.uncovered e.thread e.context.esp e.stackLimit e.stackBase])
    | none => (h, [])
  else (h, [])

/-- The line about a code that comes for the first time, and `said` with it. -/
def say (h : Handler) (r : ExceptionRecord) : Handler × List Line :=
  match claim 0 h.said r.code 8 0 with
  | some k => ({ h with said := Function.update h.said k r.code }, [.raised r.code r.address])
  | none => (h, [])

/-- What is not a fault: answered where a debugger would have, else declined. -/
def notAFault (h : Handler) (e : Exception) : Handled :=
  if e.record.code = 0x406D1388 then ⟨h, .continueExecution, e.context, []⟩
  else
    let (h, told) := if e.record.code = 0x40010006 then noteUncovered h e else (h, [])
    if e.record.code = 0x40010006 ∨ e.record.code = 0x4001000A then
      ⟨h, .continueExecution, e.context, told⟩
    else
      let (h, said) := say h e.record
      ⟨h, .continueSearch, e.context, told ++ said⟩

variable {φ : Type} (w : World φ)

/-- `dispatch_has` -/
def dispatchHas (va : UInt32) : Bool := (find w.table w.index va).isSome

/-- A guest function that real code has called, if the fault is such a call. -/
def calledByRealCode (r : ExceptionRecord) : Option UInt32 :=
  (executeFault r).filter fun va => w.image.inside va && dispatchHas w va

/-- The report of a fault that is left to others. -/
def report (r : ExceptionRecord) : List Line :=
  .faulted r.code r.address (w.owner r.address) ::
    if r.code = EXCEPTION_ACCESS_VIOLATION then
      match r.information with
      | kind :: bad :: _ =>
        .couldNotBe bad kind ::
          if Trail.hleIsAddr w.symbols bad then [.sentinel bad] else []
      | _ => []
    else []

/-- The end of `es3_veh`, for a fault. -/
def aFault (h : Handler) (e : Exception) : Handled :=
  match calledByRealCode w e.record with
  | none => ⟨h, .continueSearch, e.context, report w e.record⟩
  | some va =>
    let (cache, thunk) := ThunkCache.thunkFor w.es3Callback h.cache va
    if thunk = 0 then ⟨{ h with cache }, .continueSearch, e.context, report w e.record⟩
    else
      let count := h.r2lFaults + 1
      ⟨{ h with cache, r2lFaults := count }, .continueExecution, { e.context with eip := thunk },
        if count ≤ 8 then [.direct va count] else []⟩

def es3Veh (h : Handler) (e : Exception) : Handled :=
  if es3WatchMemHit e then
    ⟨h, .continueExecution, { e.context with dr6 := 0 }, [.written e.context.eip]⟩
  else
    let fault :=
      if e.record.code = EXCEPTION_ACCESS_VIOLATION ∧ (executeFault e.record).isNone then
        [Line.raw e.record.code e.record.address]
      else []
    let rest := if isFault e.record.code then aFault w h e else notAFault h e
    { rest with lines := fault ++ rest.lines }

/-- What an exception came to: the exception, and what was done about it. -/
structure Outcome where
  exception : Exception
  disposition : Disposition
  context : Context
  lines : List Line

def exceptions : Transducer Handler Exception Outcome where
  step h e :=
    let r := es3Veh w h e
    (r.handler, [⟨e, r.disposition, r.context, r.lines⟩])

end Es3Recomp.Source.Faults
