import Es3Recomp.Library.ByteMemory
import Es3Recomp.Library.Runs

/-!
# What was rewritten in the game's code

Source: src/src/runtime/guest.c:907-919 (`es3_guest_snapshot`), 929-966 (`es3_guest_diff`). The
copy is an array of `hi - lo` bytes, apart from the range it is a copy of: two such arrays fit in
32 bits, so no index of the scan wraps. The inner `while` is `runEnd`. Of a line that is printed,
what varies is kept.
-/
namespace Es3Recomp.Source.GuestPatches
open Library

/-- `g_code_copy`, `g_code_lo`, `g_code_hi` -/
structure Snapshot where
  lo : UInt32
  hi : UInt32
  copy : Nat → UInt8

/-- `es3_guest_snapshot`; whether `malloc` finds the memory is a parameter. -/
def es3GuestSnapshot (allocated : Bool) (mem : Memory) (s : Option Snapshot) (lo hi : UInt32) :
    Option Snapshot :=
  if s.isSome ∨ hi ≤ lo then s
  else if allocated then some ⟨lo, hi, fun i => mem (lo.toNat + i)⟩
  else none

/-- `%08X  %u byte(s)`, with at most sixteen bytes of before and after -/
structure Report where
  range : Range
  address : UInt32
  was : List UInt8
  now : List UInt8

def shown (bytes : Nat → UInt8) (r : Range) : List UInt8 :=
  (List.range' r.start (min (r.stop - r.start) 16)).map bytes

def reportOf (lo : UInt32) (now copy : Nat → UInt8) (r : Range) : Report :=
  ⟨r, lo + UInt32.ofNat r.start, shown copy r, shown now r⟩

/-- `memcpy(g_code_copy + s, now + s, i - s)` -/
def refresh (now copy : Nat → UInt8) (r : Range) : Nat → UInt8 :=
  fun i => if r.Has i then now i else copy i

structure Scanned where
  copy : Nat → UInt8
  reports : List Report
  /-- `...stopping after 40` -/
  stopped : Bool

/-- The scan from `i` on, `runs` of them reported before. -/
def diffFrom (lo : UInt32) (now : Nat → UInt8) (n : Nat) :
    Nat → Nat → Nat → (Nat → UInt8) → Scanned
  | 0, _, _, copy => ⟨copy, [], false⟩
  | turns + 1, i, runs, copy =>
    if i < n then
      if now i = copy i then diffFrom lo now n turns (i + 1) runs copy
      else
        let r : Range := ⟨i, runEnd (fun j => now j ≠ copy j) (n - i) i⟩
        let report := reportOf lo now copy r
        let copy := refresh now copy r
        if 40 < runs + 1 then ⟨copy, [report], true⟩
        else
          let rest := diffFrom lo now n turns (r.stop + 1) (runs + 1) copy
          { rest with reports := report :: rest.reports }
    else ⟨copy, [], false⟩

structure Output where
  /-- `%s rewrote the game's code:` -/
  heading : Option (Option String)
  reports : List Report
  stopped : Bool
  /-- `%u patched range(s).` -/
  total : Option Nat
  /-- `%s changed no guest code.` -/
  unchanged : Option String

def now (s : Snapshot) (mem : Memory) (i : Nat) : UInt8 := mem (s.lo.toNat + i)

/-- `es3_guest_diff`, where there is a snapshot. -/
def es3GuestDiff (when_ : Option String) (mem : Memory) (s : Snapshot) : Snapshot × Output :=
  let n := (s.hi - s.lo).toNat
  let d := diffFrom s.lo (now s mem) n n 0 0 s.copy
  let some_runs := d.reports ≠ []
  ({ s with copy := d.copy },
    { heading := if some_runs then some when_ else none
      reports := d.reports
      stopped := d.stopped
      total := if some_runs then some d.reports.length else none
      unchanged := if some_runs then none else when_ })

end Es3Recomp.Source.GuestPatches
