import Es3Recomp.Library.Transducer
import Mathlib.Data.Int.DivMod
import Mathlib.Logic.Function.Basic

/-!
# The dispatch counters of the threads

Source: src/src/runtime64/dispatch64.c:47-56 (`g_tc`, `tc_slot`), 87-102 (`tc_bump`). Threads
run `tc_bump` at the same time: an event is one access to what they share, or the entry, which is
one interlocked increment at most. `g_tc` is indexed by any `long`, so that a store beside the
array would be seen. What a thread publishes of its shadow stack are two addresses in its own
storage, and are kept as the thread they belong to. `arrivals` and `log` are what happened, and no
code reads them.
-/
namespace Es3Recomp.Source.ThreadCounters
open Library

def TC_MAX : Int32 := 64

variable {τ : Type}

/-- A row of `g_tc`. -/
structure Row (τ : Type) where
  tid : UInt32
  n : Int64
  first : UInt64
  last : UInt64
  cs : Option τ
  depth : Option τ
  deriving DecidableEq

def Row.empty : Row τ := ⟨0, 0, 0, 0, none, none⟩

/-- What a thread does next. -/
inductive Phase where
  /-- it is not in `tc_bump` -/
  | out
  | setTid (s : Int32) (pref : UInt64)
  | setFirst (s : Int32) (pref : UInt64)
  | setCs (s : Int32) (pref : UInt64)
  | setDepth (s : Int32) (pref : UInt64)
  | setSlot (s : Int32) (pref : UInt64)
  /-- `g_tc[tc_slot].n++` is a load and a store -/
  | load (pref : UInt64)
  | store (v : Int64) (pref : UInt64)
  | setLast (pref : UInt64)
  deriving DecidableEq

structure State (τ : Type) where
  rows : Int32 → Row τ
  tcn : Int32
  /-- `tc_slot` of each thread -/
  slot : τ → Int32
  phase : τ → Phase
  /-- the threads in the order of their first dispatch -/
  arrivals : List τ
  /-- what each thread has dispatched, latest first -/
  log : τ → List UInt64

def State.initial : State τ := ⟨fun _ => .empty, 0, fun _ => -1, fun _ => .out, [], fun _ => []⟩

variable [DecidableEq τ]

namespace State

def setRow (s : State τ) (i : Int32) (row : Row τ) : State τ :=
  { s with rows := Function.update s.rows i row }

def setSlot (s : State τ) (t : τ) (i : Int32) : State τ :=
  { s with slot := Function.update s.slot t i }

def goto (s : State τ) (t : τ) (phase : Phase) : State τ :=
  { s with phase := Function.update s.phase t phase }

/-- The thread dispatches. -/
def note (s : State τ) (t : τ) (pref : UInt64) : State τ :=
  { s with log := Function.update s.log t (pref :: s.log t) }

end State

/-- `tc_bump` up to the first access to a row. -/
def enter (s : State τ) (t : τ) (pref : UInt64) : State τ :=
  let s := s.note t pref
  if s.slot t < 0 then
    let taken := s.tcn + 1 - 1
    let s := { s with tcn := s.tcn + 1, arrivals := s.arrivals ++ [t] }
    if TC_MAX ≤ taken then s.setSlot t (TC_MAX - 1) else s.goto t (.setTid taken pref)
  else s.goto t (.load pref)

/-- The next access of `tc_bump`; `tid` is `GetCurrentThreadId`. -/
def advance (tid : τ → UInt32) (s : State τ) (t : τ) : State τ :=
  match s.phase t with
  | .out => s
  | .setTid i pref => (s.setRow i { s.rows i with tid := tid t }).goto t (.setFirst i pref)
  | .setFirst i pref => (s.setRow i { s.rows i with first := pref }).goto t (.setCs i pref)
  | .setCs i pref => (s.setRow i { s.rows i with cs := some t }).goto t (.setDepth i pref)
  | .setDepth i pref => (s.setRow i { s.rows i with depth := some t }).goto t (.setSlot i pref)
  | .setSlot i pref => (s.setSlot t i).goto t (.load pref)
  | .load pref => s.goto t (.store (s.rows (s.slot t)).n pref)
  | .store v pref =>
    (s.setRow (s.slot t) { s.rows (s.slot t) with n := v + 1 }).goto t (.setLast pref)
  | .setLast pref => (s.setRow (s.slot t) { s.rows (s.slot t) with last := pref }).goto t .out

inductive Event (τ : Type) where
  /-- the thread dispatches an address -/
  | dispatch (t : τ) (pref : UInt64)
  /-- the thread, in `tc_bump`, makes its next access -/
  | access (t : τ)

/-- An event that cannot happen in a state changes nothing. -/
def step (tid : τ → UInt32) (s : State τ) : Event τ → State τ
  | .dispatch t pref => if s.phase t = .out then enter s t pref else s
  | .access t => advance tid s t

def threads (tid : τ → UInt32) : Transducer (State τ) (Event τ) Empty :=
  ⟨fun s e => (step tid s e, [])⟩

end Es3Recomp.Source.ThreadCounters
