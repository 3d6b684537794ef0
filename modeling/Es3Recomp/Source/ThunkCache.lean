import Mathlib.Data.UInt

/-!
# The cache of thunks

Source: src/src/runtime/crash.c:668-697 (`thunk_for`). `es3_callback` is a parameter, a function
of what it has answered so far. The calls come one after the other, so that the second loop,
under the lock, sees what the first one has seen.
-/
namespace Es3Recomp.Source.ThunkCache

def THUNK_CACHE : Nat := 512

structure Slot where
  va : UInt32
  thunk : UInt32

/-- `g_thunks` and `g_thunk_lock_ready`, and each call of `es3_callback` with its answer. -/
structure State where
  slots : Nat → Slot
  ready : Bool
  asked : List (UInt32 × UInt32)

def initial : State := ⟨fun _ => ⟨0, 0⟩, false, []⟩

abbrev Callback := List (UInt32 × UInt32) → UInt32 → UInt32

def home (va : UInt32) : Nat := (va * 2654435761).toNat % THUNK_CACHE

/-- The first loop, with so many turns left. -/
def readLoop (slots : Nat → Slot) (va : UInt32) : Nat → Nat → Option UInt32
  | 0, _ => none
  | left + 1, n =>
    let k := (home va + n) % THUNK_CACHE
    if (slots k).va = va then some (slots k).thunk
    else if (slots k).va = 0 then none
    else readLoop slots va left (n + 1)

/-- A thunk for the address, in the slot. -/
def mint (es3Callback : Callback) (s : State) (va : UInt32) (k : Nat) : State × UInt32 :=
  let t := es3Callback s.asked va
  ({ s with
      slots := fun j => if j = k then ⟨va, t⟩ else s.slots j
      asked := s.asked ++ [(va, t)] }, t)

/-- The second loop. -/
def lockedLoop (es3Callback : Callback) (s : State) (va : UInt32) : Nat → Nat → State × UInt32
  | 0, _ => (s, 0)
  | left + 1, n =>
    let k := (home va + n) % THUNK_CACHE
    if (s.slots k).va = va then (s, (s.slots k).thunk)
    else if (s.slots k).va = 0 then mint es3Callback s va k
    else lockedLoop es3Callback s va left (n + 1)

def thunkFor (es3Callback : Callback) (s : State) (va : UInt32) : State × UInt32 :=
  match readLoop s.slots va THUNK_CACHE 0 with
  | some t => (s, t)
  | none => if s.ready then lockedLoop es3Callback s va THUNK_CACHE 0 else (s, 0)

end Es3Recomp.Source.ThunkCache
