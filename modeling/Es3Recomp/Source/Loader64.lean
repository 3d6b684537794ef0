import Mathlib.Data.UInt
import Es3Recomp.Library.LittleEndian
import Es3Recomp.Library.QuadMemory

/-!
# The base relocations of a 64-bit image

Source: src/src/runtime64/loader64.c:139 (`rva`), 200-201 and 217-242. The image is a memory
by the offset from `g_image.base`, which is what `rva` adds; an offset is a `uint32_t`, and the
sum of a page and an offset in it wraps. Every field is read when the code reads it, so a slot
that lay in the directory would change what follows.
-/
namespace Es3Recomp.Source.Loader64
open Library

/-- IMAGE_DATA_DIRECTORY -/
structure DataDirectory where
  virtualAddress : UInt32
  size : UInt32

def rd16 (mem : Memory) (p : Nat) : UInt16 :=
  UInt16.ofNat ((mem p).toNat + 0x100 * (mem (p + 1)).toNat)

def rd32 (mem : Memory) (p : Nat) : UInt32 :=
  leWord (mem p) (mem (p + 1)) (mem (p + 2)) (mem (p + 3))

/-! IMAGE_BASE_RELOCATION, and the entries behind it. -/

def pageOf (mem : Memory) (p : Nat) : UInt32 := rd32 mem p

def sizeOfBlock (mem : Memory) (p : Nat) : UInt32 := rd32 mem (p + 4)

def entryAt (mem : Memory) (p i : Nat) : UInt16 := rd16 mem (p + 8 + 2 * i)

def IMAGE_REL_BASED_DIR64 : UInt16 := 10

/-- The offset that entry `i` of the block at `p` names, where it is a DIR64. -/
def slotAt (mem : Memory) (p i : Nat) : Option Nat :=
  let ent := entryAt mem p i
  if ent >>> 12 = IMAGE_REL_BASED_DIR64 then
    some (pageOf mem p + (ent &&& 0xFFF).toUInt32).toNat
  else none

/-- `(br->SizeOfBlock - sizeof *br) / 2`, kept in an `unsigned`. -/
def entryCount (size : UInt32) : Nat := ((size.toUInt64 - 8) / 2).toUInt32.toNat

/-- One turn of the inner loop. -/
def relocateEntry (delta : UInt64) (p : Nat) (mem : Memory) (i : Nat) : Memory :=
  match slotAt mem p i with
  | some slot => patch (· + delta) mem slot
  | none => mem

def relocateBlock (delta : UInt64) (p : Nat) (mem : Memory) : Memory :=
  (List.range (entryCount (sizeOfBlock mem p))).foldl (relocateEntry delta p) mem

/-- `while (p < end)`, for at most so many turns; `none` when they are used up. -/
def walk (delta : UInt64) (stop : Nat) : Nat → Nat → Memory → Option Memory
  | 0, _, _ => none
  | turns + 1, p, mem =>
    if p < stop then
      if sizeOfBlock mem p = 0 then some mem
      else
        let mem := relocateBlock delta p mem
        walk delta stop turns (p + (sizeOfBlock mem p).toNat) mem
    else some mem

/-- What the loader makes of a mapped image that lies at `base` and asks for `want`. -/
def relocate (base want : UInt64) (dir : DataDirectory) (mem : Memory) : Option Memory :=
  let delta := base - want
  if delta = 0 then some mem
  else walk delta (dir.virtualAddress.toNat + dir.size.toNat) (dir.size.toNat + 1)
    dir.virtualAddress.toNat mem

end Es3Recomp.Source.Loader64
