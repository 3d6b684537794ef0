import Es3Recomp.Library.LittleEndian
import Mathlib.Logic.Function.Basic

/-!
# The dispatch trail: one writer, three readers

Source: src/src/runtime/crash.c:55-69 (the ring), 131-161 (`es3_note_dispatch`),
177-197 (`open_trail`), 208-215 (`region_of`), 301-323 (`last_va_on`), 594-621
(`es3_report_state`); src/src/runtime/es3_rt.h:139-144 (import sentinels);
src/tools/__main__.py:91-137 (`cmd_trail`). The generated import table and the base
of the guest image are a parameter. The registers that `es3_report_state` prints
from the watched CPU are left out.
-/
namespace Es3Recomp.Source.Trail
open Library

def TRAIL : UInt32 := 0x100000

/-- `2 * TRAIL + 2`: the count, the stride, then pairs of thread id and address. -/
def RING_WORDS : Nat := 2097154

/-- `g_ring` and `g_trail_off`. -/
structure Trace where
  ring : Fin RING_WORDS → UInt32
  trailOff : Bool

theorem masked_eq (i : UInt32) : (i &&& (TRAIL - 1)).toNat = i.toNat % 0x100000 := by
  rw [UInt32.toNat_and, show (TRAIL - 1).toNat = 2 ^ 20 - 1 from rfl, Nat.and_two_pow_sub_one_eq_mod]

theorem masked_lt (i : UInt32) : (i &&& (TRAIL - 1)).toNat < 0x100000 := by
  rw [masked_eq]
  exact Nat.mod_lt _ (by decide)

def tidIndex (i : UInt32) : Fin RING_WORDS :=
  ⟨2 + 2 * (i &&& (TRAIL - 1)).toNat, by have := masked_lt i; unfold RING_WORDS; omega⟩

def vaIndex (i : UInt32) : Fin RING_WORDS :=
  ⟨3 + 2 * (i &&& (TRAIL - 1)).toNat, by have := masked_lt i; unfold RING_WORDS; omega⟩

def countIndex : Fin RING_WORDS := ⟨0, by decide⟩
def strideIndex : Fin RING_WORDS := ⟨1, by decide⟩

/-- `RING_COUNT`, `RING_TID(i)` and `RING_VA(i)`, as they are read. -/
def ringCount (t : Trace) : UInt32 := t.ring countIndex
def ringTid (t : Trace) (i : UInt32) : UInt32 := t.ring (tidIndex i)
def ringVa (t : Trace) (i : UInt32) : UInt32 := t.ring (vaIndex i)

/-- `open_trail` when the file can be mapped: a fresh view, and its stride. -/
def openTrail (t : Trace) : Trace :=
  { t with ring := Function.update (fun _ => 0) strideIndex 2 }

def es3NoteDispatch (t : Trace) (tid va : UInt32) : Trace :=
  if t.trailOff then t
  else
    let i := ringCount t
    let ring := Function.update t.ring (tidIndex i) tid
    let ring := Function.update ring (vaIndex i) va
    { t with ring := Function.update ring countIndex (i + 1) }

/-! ## The readers in the runtime -/

def HLE_BASE : UInt32 := 0xE5300000
def HLE_STRIDE : UInt32 := 4

/-- What the build generates about imports, and where the guest image is. -/
structure Symbols where
  hleCount : UInt32
  hleName : UInt32 → String
  hleDll : UInt32 → String
  imageBase : UInt32

/-- `HLE_IS_ADDR` -/
def hleIsAddr (sym : Symbols) (va : UInt32) : Bool :=
  HLE_BASE ≤ va ∧ va < HLE_BASE + HLE_STRIDE * sym.hleCount

/-- `HLE_ID_OF` -/
def hleIdOf (va : UInt32) : UInt32 := (va - HLE_BASE) / HLE_STRIDE

def regionOf (sym : Symbols) (va : UInt32) : String :=
  if hleIsAddr sym va then "an IMPORT SENTINEL - see below"
  else if sym.imageBase ≤ va ∧ va < sym.imageBase + 0x02000000 then "inside the guest image"
  else if va < 0x10000 then "null page"
  else ""

structure ReportLine where
  tid : UInt32
  va : UInt32
  what : String
  deriving DecidableEq

structure StateReport where
  why : String
  total : UInt32
  shown : UInt32
  lines : List ReportLine

def reportLine (sym : Symbols) (t : Trace) (i : UInt32) : ReportLine :=
  let va := ringVa t i
  ⟨ringTid t i, va,
    if hleIsAddr sym va then
      "import " ++ sym.hleName (hleIdOf va) ++ " (" ++ sym.hleDll (hleIdOf va) ++ ")"
    else regionOf sym va⟩

/-- `for (i = total - show; i < total; i++)` prints a line for each `i`. -/
def es3ReportState (sym : Symbols) (t : Trace) (why : String) : StateReport :=
  let total := ringCount t
  let shown := if total < 24 then total else 24
  ⟨why, total, shown,
    (List.range shown.toNat).map fun j => reportLine sym t (total - shown + UInt32.ofNat j)⟩

/-- The loop of `last_va_on` over the values `k` takes: the address returned, and
`*import_va`. -/
def walkBack (sym : Symbols) (t : Trace) (tid : UInt32) : List UInt32 → UInt32 → UInt32 × UInt32
  | [], importVa => (0, importVa)
  | k :: ks, importVa =>
    if ringTid t k ≠ tid then walkBack sym t tid ks importVa
    else if hleIsAddr sym (ringVa t k) then
      walkBack sym t tid ks (if importVa = 0 then ringVa t k else importVa)
    else (ringVa t k, importVa)

def lastVaOn (sym : Symbols) (t : Trace) (tid : UInt32) : UInt32 × UInt32 :=
  let total := ringCount t
  let n := if total < TRAIL then total else TRAIL
  walkBack sym t tid ((List.range n.toNat).map fun i => total - 1 - UInt32.ofNat i) 0

/-! ## The reader of the file -/

structure TrailLine where
  i : Nat
  tid : Nat
  va : Nat
  who : String
  deriving DecidableEq

structure TrailListing where
  total : Nat
  kept : Nat
  threads : Option (List (Nat × Nat))
  lines : List TrailLine

/-- `seen[t] = seen.get(t, 0) + 1`, on the items of the dictionary in order. -/
def seenOnce : List (Nat × Nat) → Nat → List (Nat × Nat)
  | [], t => [(t, 1)]
  | (u, c) :: rest, t => if u = t then (u, c + 1) :: rest else (u, c) :: seenOnce rest t

/-- The text for an import; `imports` holds pairs of DLL and name. -/
def whoOf (imports : List (String × String)) (va : Nat) : String :=
  if HLE_BASE.toNat ≤ va ∧ va < HLE_BASE.toNat + HLE_STRIDE.toNat * max imports.length 1 then
    let k := (va - HLE_BASE.toNat) / HLE_STRIDE.toNat
    match imports[k]? with
    | some (dll, name) => "import " ++ name ++ " (" ++ dll ++ ")"
    | none => "import #" ++ toString k
  else ""

/-- `tid` and `va` of entry `i`, out of a body of `n` entries. -/
def entryAt (body : List Nat) (stride n i : Nat) : Nat × Nat :=
  (if stride = 2 then body.getD (stride * (i % n)) 0 else 0,
    body.getD (stride * (i % n) + (stride - 1)) 0)

/-- `cmd_trail` on the bytes of the file; `thread` is 0 when it is not asked for. -/
def cmdTrail (file : String) (raw : List UInt8) (thread : Nat) (imports : List (String × String)) :
    Except String TrailListing :=
  if raw.length < 8 then .error (file ++ " is too short to be a trail")
  else
    let words := (unpack raw).map UInt32.toNat
    let total := words.getD 0 0
    let stride := if words.getD 1 0 = 0 then 1 else words.getD 1 0
    let body := words.drop 2
    let n := body.length / stride
    let window := (List.range' (total - n) (total - (total - n))).map fun i =>
      (i, entryAt body stride n i)
    let seen := (window.map fun e => e.2.1).foldl seenOnce []
    .ok ⟨total, min total n,
      if stride = 2 ∧ thread = 0 then some (seen.mergeSort fun a b => b.2 ≤ a.2) else none,
      (window.filter fun e => thread = 0 ∨ e.2.1 = thread).map fun e =>
        ⟨e.1, e.2.1, e.2.2, whoOf imports e.2.2⟩⟩

end Es3Recomp.Source.Trail
