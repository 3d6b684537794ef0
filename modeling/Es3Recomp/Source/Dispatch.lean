import Es3Recomp.Library.BinarySearch
import Es3Recomp.Source.Trail
import Mathlib.Order.Nat

/-!
# Calls of guest functions: the dispatcher and the direct call

Source: src/src/runtime/dispatch.c:37-88 (the lifted table, `dispatch_build_index`,
`find`), 138-167 (`es3_guest_hle_run`, `es3_bind_guest`), 183-352 (`dispatch`,
`dispatch_inner`); src/src/runtime/es3_rt.h:357-371 (`DCALL`); src/src/runtime/crash.c:77-129
(the watched addresses). A function pointer is a value of a type of its own, and what is
found behind it a parameter. Of what is printed, the lines of ES3_WATCH_VA and
ES3_TRACE_FROM are kept, less the thread, the module and the count.
-/
namespace Es3Recomp.Source.Dispatch
open Library Source.Trail

/-! ## Bound guest functions -/

def GUEST_HLE_MAX : Nat := 64

/-- `g_guest_hle[0 .. g_guest_hle_n)` and the span of its addresses, which the tests on
the hot path rely on. -/
structure GuestHle (η : Type) where
  bound : List (UInt32 × η)
  lo : UInt32
  hi : UInt32
  room : bound.length ≤ GUEST_HLE_MAX
  spans : ∀ b ∈ bound, lo ≤ b.1 ∧ b.1 ≤ hi

def GuestHle.initial {η : Type} : GuestHle η := ⟨[], 0xFFFFFFFF, 0, Nat.zero_le _, nofun⟩

/-- A bound that has been lowered to `x` where `x` was below it. -/
theorem lowered_le (lo x : UInt32) :
    (if x < lo then x else lo) ≤ lo ∧ (if x < lo then x else lo) ≤ x := by
  by_cases below : x < lo
  · rw [if_pos below]
    exact ⟨UInt32.le_of_lt below, UInt32.le_refl x⟩
  · rw [if_neg below]
    exact ⟨UInt32.le_refl lo, UInt32.not_lt.mp below⟩

theorem le_raised (hi x : UInt32) :
    hi ≤ (if hi < x then x else hi) ∧ x ≤ (if hi < x then x else hi) := by
  by_cases above : hi < x
  · rw [if_pos above]
    exact ⟨UInt32.le_of_lt above, UInt32.le_refl x⟩
  · rw [if_neg above]
    exact ⟨UInt32.le_refl hi, UInt32.not_lt.mp above⟩

def es3BindGuest {η : Type} (g : GuestHle η) (va : UInt32) (fn : η) : GuestHle η :=
  if full : GUEST_HLE_MAX ≤ g.bound.length then g
  else
    { bound := g.bound ++ [(va, fn)]
      lo := if va < g.lo then va else g.lo
      hi := if g.hi < va then va else g.hi
      room := by
        rw [List.length_append]
        exact Nat.not_le.mp full
      spans := by
        intro b member
        have low := lowered_le g.lo va
        have high := le_raised g.hi va
        rcases List.mem_append.mp member with before | new
        · have span := g.spans b before
          exact ⟨UInt32.le_trans low.1 span.1, UInt32.le_trans span.2 high.1⟩
        · rw [List.mem_singleton.mp new]
          exact ⟨low.2, high.2⟩ }

/-- Calls of `es3_bind_guest`, one after another. -/
def boundBy {η : Type} (calls : List (UInt32 × η)) : GuestHle η :=
  calls.foldl (fun g b => es3BindGuest g b.1 b.2) GuestHle.initial

/-! ## The lifted table -/

structure Entry (φ : Type) where
  va : UInt32
  fn : φ

/-- Unsigned words compare as the numbers they are. -/
def Entry.key {φ : Type} (e : Entry φ) : Nat := e.va.toNat

/-- `g_fast` and the addresses it is for. -/
structure Index (φ : Type) where
  lo : UInt32
  hi : UInt32
  slots : UInt32 → Option φ
  /-- the places written to that are not places of the array -/
  stray : List UInt32

/-- `g_fast[e.va - g_fast_lo] = e.fn` where the array has `span` places. -/
def fill {φ : Type} (lo span : UInt32) (g : (UInt32 → Option φ) × List UInt32) (e : Entry φ) :
    (UInt32 → Option φ) × List UInt32 :=
  if e.va - lo < span then (Function.update g.1 (e.va - lo) (some e.fn), g.2)
  else (g.1, g.2 ++ [e.va - lo])

/-- The loop that fills `g_fast`. -/
def filled {φ : Type} (lo span : UInt32) (table : List (Entry φ)) :
    (UInt32 → Option φ) × List UInt32 :=
  table.foldl (fill lo span) (fun _ => none, [])

/-- `dispatch_build_index`; `allocated` says whether it was called and `calloc` succeeded. -/
def dispatchBuildIndex {φ : Type} (allocated : Bool) (table : List (Entry φ)) : Option (Index φ) :=
  match table.head?, table.getLast? with
  | some first, some last =>
    let hi := last.va + 1
    let g := filled first.va (hi - first.va) table
    if allocated then some ⟨first.va, hi, g.1, g.2⟩ else none
  | _, _ => none

/-- The search in `find`. -/
def searchTable {φ : Type} (table : List (Entry φ)) (va : UInt32) : Option φ :=
  (BinarySearch.search Entry.key table va.toNat).map Entry.fn

def find {φ : Type} (table : List (Entry φ)) (index : Option (Index φ)) (va : UInt32) : Option φ :=
  match index with
  | some i => if i.lo ≤ va ∧ va < i.hi then i.slots (va - i.lo) else searchTable table va
  | none => searchTable table va

/-! ## Watched addresses -/

structure Watch where
  vas : List UInt32
  lo : UInt32
  hi : UInt32

/-- `watch_va_init`, which `es3_trail_init` calls before any guest code runs; `vas` is
what ES3_WATCH_VA holds. -/
def watchVaInit (vas : List UInt32) : Watch where
  vas := vas.take 8
  lo := (vas.take 8).foldl (fun lo va => if va < lo then va else lo) 0xFFFFFFFF
  hi := (vas.take 8).foldl (fun hi va => if hi < va then va else hi) 0

def es3Watched (w : Watch) (va : UInt32) : Bool := va ∈ w.vas

/-! ## The machine that calls happen on -/

/-- `guest` is the CPU, the memory, and whatever else a function or a handler reads. -/
structure State (σ η : Type) where
  guest : σ
  hle : GuestHle η
  trail : Trace

inductive Line where
  /-- `es3_watch_enter` -/
  | entered (va caller : UInt32)
  /-- `es3_watch_leave` -/
  | returned (va eax caller : UInt32)
  /-- `[from ...]`: the call site, the target, four arguments -/
  | traced (site va : UInt32) (args : List UInt32)
  | answered (eax : UInt32)
  deriving DecidableEq

/-- What the build and the environment leave fixed, and what function pointers do: those
of handlers, `η`, and those of lifted functions, `φ`. -/
structure Runtime (σ η φ : Type) where
  symbols : Symbols
  table : List (Entry φ)
  allocated : Bool
  watch : Watch
  /-- ES3_TRACE_FROM, 0 when it is not set -/
  traceFrom : UInt32
  tid : UInt32
  /-- `rd32(c->esp + 4 * k)` -/
  stackWord : σ → Nat → UInt32
  eax : σ → UInt32
  handler : η → State σ η → State σ η × Int
  body : φ → State σ η → State σ η
  hleCall : UInt32 → State σ η → State σ η
  hleCallAddress : UInt32 → State σ η → State σ η
  /-- `hybrid_thunk_target` -/
  thunkTarget : State σ η → UInt32 → Option UInt32
  isHostCode : State σ η → UInt32 → Bool

section Calls
variable {σ η φ : Type} (rt : Runtime σ η φ)

def note (s : State σ η) (va : UInt32) : State σ η :=
  { s with trail := es3NoteDispatch s.trail rt.tid va }

/-- The first handler bound to the address. -/
def es3GuestHleRun (s : State σ η) (va : UInt32) : State σ η × Int :=
  match s.hle.bound.find? fun b => b.1 = va with
  | some b => rt.handler b.2 s
  | none => (s, 0)

/-- `va >= es3_guest_hle_lo && va <= es3_guest_hle_hi && es3_guest_hle_run(c, va)` -/
def hooked (s : State σ η) (va : UInt32) : State σ η × Int :=
  if s.hle.lo ≤ va ∧ va ≤ s.hle.hi then es3GuestHleRun rt s va else (s, 0)

/-- `DCALL` -/
def dcall (s : State σ η) (va : UInt32) (fn : φ) : State σ η × List Line :=
  let ran := hooked rt (note rt s va) va
  if ran.2 ≠ 0 then (ran.1, [])
  else if rt.watch.lo ≤ va ∧ va ≤ rt.watch.hi ∧ es3Watched rt.watch va then
    let caller := rt.stackWord ran.1.guest 0
    let done := rt.body fn ran.1
    (done, [.entered va caller, .returned va (rt.eax done.guest) caller])
  else (rt.body fn ran.1, [])

/-- `dispatch_inner`: none when it aborts. -/
def dispatchInner (s : State σ η) (va : UInt32) : Option (State σ η) :=
  if hleIsAddr rt.symbols va then some (rt.hleCall (hleIdOf va) s)
  else
    let va := (rt.thunkTarget s va).getD va
    let ran := hooked rt s va
    if ran.2 ≠ 0 then some ran.1
    else
      match find rt.table (dispatchBuildIndex rt.allocated rt.table) va with
      | some fn => some (rt.body fn ran.1)
      | none => if rt.isHostCode ran.1 va then some (rt.hleCallAddress va ran.1) else none

/-- `dispatch`; ES3_TRACE_STACK only prints, and is left out. -/
def dispatch (s : State σ η) (va : UInt32) : Option (State σ η × List Line) :=
  let s := note rt s va
  let caller := rt.stackWord s.guest 0
  if rt.traceFrom ≠ 0 ∧ caller = rt.traceFrom then
    let line := Line.traced rt.traceFrom va ((List.range' 1 4).map (rt.stackWord s.guest))
    (dispatchInner rt s va).map fun done => (done, [line, .answered (rt.eax done.guest)])
  else if es3Watched rt.watch va then
    (dispatchInner rt s va).map fun done =>
      (done, [.entered va caller, .returned va (rt.eax done.guest) caller])
  else (dispatchInner rt s va).map fun done => (done, [])

end Calls
end Es3Recomp.Source.Dispatch
