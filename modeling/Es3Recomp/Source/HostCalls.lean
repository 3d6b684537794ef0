import Mathlib.Data.UInt

/-!
# Host calls, reported once

Source: src/src/runtime/hle_native.c:362-392 (`note_host_call`), up to where it decides to report
a target. What it prints of it is not modelled.
-/
namespace Es3Recomp.Source.HostCalls

/-- `g_host_seen` -/
abbrev Seen := Nat → UInt32

def home (target : UInt32) : Nat := (target.toNat >>> 2) &&& 4095

/-- The loop, with so many tries left. -/
def probe (seen : Seen) (target : UInt32) : Nat → Nat → Nat
  | 0, slot => slot
  | tries + 1, slot =>
    if seen slot ≠ 0 ∧ seen slot ≠ target then probe seen target tries ((slot + 1) &&& 4095)
    else slot

/-- Whether the target is reported, with `ES3_TRACE_HOSTCALLS` set or not. -/
def noteHostCall (traceHost : Bool) (seen : Seen) (target : UInt32) : Seen × Bool :=
  if ¬ traceHost then (seen, false)
  else
    let slot := probe seen target 64 (home target)
    if seen slot = target then (seen, false)
    else (fun j => if j = slot then target else seen j, true)

end Es3Recomp.Source.HostCalls
