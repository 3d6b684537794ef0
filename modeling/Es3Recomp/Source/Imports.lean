import Es3Recomp.Library.ByteMemory
import Es3Recomp.Source.Trail
import Mathlib.Data.Finset.Sort
import Mathlib.Data.List.DropRight
import Mathlib.Data.List.Lex
import Mathlib.Data.Prod.Lex
import Mathlib.Data.String.Basic

/-!
# Imports: numbered by the driver, patched by the loader, read back from the trail

Source: src/tools/recomp/driver.py:52-76 (`ident`, `purge_table`), 456-505 (the import
tables of `emit_headers`); src/src/runtime/hle.c:20-45, 88-91 (the tables of the C side);
src/src/runtime/guest.c:765-774 (the IAT in `guest_load`); src/src/runtime/es3_rt.h:139-153;
src/tools/__main__.py:118-125 (`cmd_trail` rebuilding the list). The tables are kept as
rows, not as the text between the compiler and the driver. What pops how many arguments is
found out by another program, and is a parameter.
-/
namespace Es3Recomp.Source.Imports
open Library Source.Trail

/-- `(dll, name)` -/
structure Import where
  dll : String
  name : String
  deriving DecidableEq

theorem import_key_injective :
    Function.Injective fun i : Import => (toLex (i.dll, i.name) : String ×ₗ String) := by
  rintro ⟨dll, name⟩ ⟨dll', name'⟩ same
  cases same
  rfl

/-- Tuples are compared by the DLL first, and strings by their characters. -/
instance : LinearOrder Import := LinearOrder.lift' _ import_key_injective

/-- The four bytes of an IAT slot. -/
def slotSpan (va : UInt32) : Span := ⟨va.toNat, 4⟩

/-- `{iat_va: (dll, name)}` in the order of its insertions: the slots are four bytes wide
and do not overlap, so that no address is there twice. -/
structure IatMap where
  items : List (UInt32 × Import)
  inside : ∀ e ∈ items, e.1.toNat + 4 ≤ 2 ^ 32
  apart : items.Pairwise fun e e' => (slotSpan e.1).Apart (slotSpan e'.1)

def IatMap.values (iat : IatMap) : List Import := iat.items.map Prod.snd

/-- `sorted(iat.items())`: the addresses are all different, so they decide. -/
def IatMap.sortedItems (iat : IatMap) : List (UInt32 × Import) :=
  iat.items.mergeSort fun e e' => e.1 ≤ e'.1

/-! ## The driver -/

/-- `ident`; `isalnum` is that of Python. -/
def ident (isalnum : Char → Bool) (name : String) : String :=
  String.ofList (name.toList.map fun ch => if isalnum ch then ch else '_')

/-- `os.path.splitext(p)[0]`: without what follows the last dot, leading dots apart. -/
def splitextRoot (p : String) : String :=
  let isSep := fun ch => ch = '\\' ∨ ch = '/'
  let base := p.toList.rtakeWhile fun ch => ¬ isSep ch
  let front := p.toList.take (p.toList.length - base.length)
  let dots := base.takeWhile (· = '.')
  let rest := base.dropWhile (· = '.')
  if '.' ∈ rest then String.ofList (front ++ dots ++ (rest.rdropWhile (· ≠ '.')).dropLast) else p

/-- `argc * 4`, or -1 where it could not be found out. -/
def popped (lookup : Import → Option Nat) (i : Import) : Int :=
  match lookup i with
  | none => -1
  | some argc => argc * 4

/-- `purge_table`: the entries of the dictionary, in the order of their insertion. -/
def purgeTable (lookup : Import → Option Nat) (iat : IatMap) : List (Import × Int) :=
  iat.sortedItems.foldl (fun out e =>
    if (out.lookup e.2).isSome then out else out ++ [(e.2, popped lookup e.2)]) []

/-- `sorted({(dll, n) for dll, n in iat.values()})` -/
def importPairs (iat : IatMap) : List Import := iat.values.toFinset.sort

/-- `enum_of` -/
def enumOf (isalnum : Char → Bool) (pairs : List Import) (i : Import) : String :=
  if 1 < (pairs.filter fun q => q.name = i.name).length then
    "HLE_" ++ ident isalnum (splitextRoot i.dll) ++ "_" ++ ident isalnum i.name
  else "HLE_" ++ ident isalnum i.name

/-- A row of recomp_imports.h: `X(id, name, dll, purge)`. -/
structure ImportRow where
  id : String
  name : String
  dll : String
  purge : Int
  deriving DecidableEq

/-- `HLE_IMPORTS` and `IAT_SLOTS`, as `emit_headers` writes them. -/
structure Headers where
  imports : List ImportRow
  slots : List (UInt32 × Nat)

def emitHeaders (isalnum : Char → Bool) (iat : IatMap) (purge : List (Import × Int)) : Headers :=
  let pairs := importPairs iat
  { imports := pairs.map fun i =>
      ⟨enumOf isalnum pairs i, i.name, i.dll, (purge.lookup i).getD (-1)⟩
    slots := iat.sortedItems.map fun e => (e.1, pairs.idxOf e.2) }

theorem mem_importPairs_iff {iat : IatMap} {i : Import} : i ∈ importPairs iat ↔ i ∈ iat.values := by
  rw [importPairs, Finset.mem_sort, List.mem_toFinset]

theorem getElem?_imports (isalnum : Char → Bool) (iat : IatMap) (purge : List (Import × Int))
    (k : Nat) :
    (emitHeaders isalnum iat purge).imports[k]? = ((importPairs iat)[k]?).map fun i =>
      ⟨enumOf isalnum (importPairs iat) i, i.name, i.dll, (purge.lookup i).getD (-1)⟩ := by
  rw [emitHeaders, List.getElem?_map]

/-! ## The runtime -/

def wr32 (mem : Memory) (va word : UInt32) : Memory := store mem va.toNat (leBytes word)

def rd32 (mem : Memory) (va : UInt32) : UInt32 := (unpack (load mem (slotSpan va))).headD 0

/-- `HLE_ADDR` -/
def hleAddr (id : Nat) : UInt32 := HLE_BASE + HLE_STRIDE * UInt32.ofNat id

/-- `IAT_SLOTS(PATCH)` in `guest_load`. -/
def guestLoad (h : Headers) (mem : Memory) : Memory :=
  h.slots.foldl (fun mem row => wr32 mem row.1 (hleAddr row.2)) mem

/-- `g_names`, `g_dlls` and `HLE_COUNT`, one entry a row, as the other readers of a sentinel
see them. -/
def symbolsOf (h : Headers) (imageBase : UInt32) : Symbols where
  hleCount := UInt32.ofNat h.imports.length
  hleName id := ((h.imports[id.toNat]?).map ImportRow.name).getD "<bad id>"
  hleDll id := ((h.imports[id.toNat]?).map ImportRow.dll).getD "?"
  imageBase := imageBase

/-- `hle_purge` -/
def hlePurge (h : Headers) (id : UInt32) : Int :=
  ((h.imports[id.toNat]?).map ImportRow.purge).getD (-1)

/-! ## The reader of the trail -/

/-- `sorted(set(pe.build_iat_map(...).values()))`, as `cmd_trail` passes it on. -/
def trailImports (iat : IatMap) : List (String × String) :=
  iat.values.toFinset.sort.map fun i => (i.dll, i.name)

end Es3Recomp.Source.Imports
