import Es3Recomp.Source.Driver
import Mathlib.Data.Finset.Sort

/-!
# The driver's closure rounds

Source: src/tools/recomp/driver.py:208-245 (`_extent_to_next`, `_lift_round`), 264 and 310-335
(`recompile`: lift, then close what the lifted code can reach). Addresses and sizes are
Python's integers. The lifter, `lifter.lift_function(lifter.read_va(va, size), va)`, is any
function of the two that gives a text or fails with one. A dictionary is a list of its
items; that of the sizes has the latest item of a key first.
-/
namespace Es3Recomp.Source.Closure
open Library Pattern Source.Driver

abbrev Lifter := ℤ → ℤ → Except Text Text

/-! ## The sizes of the functions -/

abbrev Funcs := List (ℤ × ℤ)

/-- `funcs.get(va, 0)` -/
def Funcs.get (funcs : Funcs) (va : ℤ) : ℤ := (funcs.lookup va).getD 0

def Funcs.keys (funcs : Funcs) : List ℤ := funcs.map Prod.fst

/-- `_extent_to_next` -/
def extentToNext (va : ℤ) (funcs : Funcs) (codeEnd cap : ℤ) : ℤ :=
  let nxt := (funcs.keys.filter (va < ·)).min?.getD codeEnd
  max 1 (min (min nxt (va + cap)) codeEnd - va)

/-! ## The texts -/

/-- `"%08X" % va` -/
def upperHex8 (va : ℤ) : Text :=
  let sign := if va < 0 then ['-'] else []
  let digits := (Nat.toDigits 16 va.natAbs).map Char.toUpper
  sign ++ List.replicate (8 - sign.length - digits.length) '0' ++ digits

/-- What stands for a function that could not be lifted. -/
def failedBody (exc : Text) (va : ℤ) : Text :=
  "/* FAILED TO LIFT: ".toList ++ sub (only "*/".toList) (fun _ => "* /".toList) exc ++
    " */\nvoid L_".toList ++ upperHex8 va ++
    "(CPU *c)\n\x7b\n    (void)c; abort();\n\x7d".toList

/-- `[int(h, 16) for h in _DISPATCH.findall(body)]` -/
def dispatched (body : Text) : List ℤ :=
  (findall dispatchPattern body).map fun m => (ofHex (group1 m) : ℤ)

/-! ## One round -/

/-- A line on stderr. -/
inductive Line where
  | noSize (va : ℤ)
  | noBody (count : Nat)
  | stillOpen (count rounds : Nat)
  deriving DecidableEq

/-- What a round changes. The calls of the lifter are recorded besides. -/
structure Lifted where
  bodies : List (ℤ × Text)
  failed : List (ℤ × Text)
  reached : Finset ℤ
  said : List Line
  calls : List ℤ

/-- The addresses that have a body. -/
def Lifted.keys (r : Lifted) : List ℤ := r.bodies.map Prod.fst

/-- The `try`: a body, and what there is to remember of a failure. -/
def tryLift (lifter : Lifter) (va size : ℤ) : Text × List (ℤ × Text) :=
  match lifter va size with
  | .ok body => (body, [])
  | .error exc => (failedBody exc va, [(va, exc)])

/-- One turn of the loop of `_lift_round`. -/
def liftOne (lifter : Lifter) (funcs : Funcs) (r : Lifted) (va : ℤ) : Lifted :=
  if va ∈ r.keys then r
  else
    let size := funcs.get va
    if size = 0 then { r with said := r.said ++ [.noSize va] }
    else
      let (body, failed) := tryLift lifter va size
      { bodies := r.bodies ++ [(va, body)]
        failed := r.failed ++ failed
        reached := r.reached ∪ (dispatched body).toFinset
        said := r.said
        calls := r.calls ++ [va] }

/-- `_lift_round`, and what it returns. -/
def liftRound (lifter : Lifter) (funcs : Funcs) (pending : List ℤ) (r : Lifted) :
    Lifted × Finset ℤ :=
  let r := pending.foldl (liftOne lifter funcs) { r with reached := ∅ }
  (r, r.reached.filter fun a => a ∉ r.keys)

/-! ## The rounds -/

/-- What `analyze_pe` says of the executable. -/
structure Info where
  codeStart : Option ℤ
  codeEnd : ℤ

/-- `lo <= a < info.code_end` with `lo = info.code_start or 0` -/
def Info.Inside (info : Info) (a : ℤ) : Prop := info.codeStart.getD 0 ≤ a ∧ a < info.codeEnd

instance (info : Info) (a : ℤ) : Decidable (info.Inside a) := inferInstanceAs (Decidable (_ ∧ _))

/-- The variables of the loop. -/
structure Rounds where
  lifted : Lifted
  funcs : Funcs
  pending : List ℤ
  rounds : Nat

/-- The body of the loop. -/
def closeRound (lifter : Lifter) (info : Info) (s : Rounds) : Rounds :=
  let (r, opened) := liftRound lifter s.funcs s.pending s.lifted
  let pending := (opened.filter info.Inside).sort
  { lifted := if pending = [] then r else { r with said := r.said ++ [.noBody pending.length] }
    funcs := pending.foldl
      (fun funcs va => (va, extentToNext va funcs info.codeEnd 0x4000) :: funcs) s.funcs
    pending := pending
    rounds := s.rounds + 1 }

def ROUNDS : Nat := 8

/-- `while pending and rounds < 8`, for as many rounds as are left. -/
def closeRounds (lifter : Lifter) (info : Info) : Nat → Rounds → Rounds
  | 0, s => s
  | left + 1, s =>
    if s.pending = [] then s else closeRounds lifter info left (closeRound lifter info s)

/-- `sorted(addrs) if addrs else sorted(funcs)` -/
def firstTargets (addrs : List ℤ) (funcs : Funcs) : List ℤ :=
  if addrs = [] then funcs.keys.mergeSort else addrs.mergeSort

/-- The rounds of `recompile`, and the line about what is still open. -/
def closure (lifter : Lifter) (info : Info) (funcs : Funcs) (addrs : List ℤ) : Rounds :=
  let s := closeRounds lifter info ROUNDS ⟨⟨[], [], ∅, [], []⟩, funcs, firstTargets addrs funcs, 0⟩
  if s.pending = [] then s
  else { s with lifted :=
    { s.lifted with said := s.lifted.said ++ [.stillOpen s.pending.length s.rounds] } }

end Es3Recomp.Source.Closure
