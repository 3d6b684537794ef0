import Es3Recomp.Library.IntervalCache
import Es3Recomp.Source.ArgString

/-!
# Which addresses are real code

Source: src/src/runtime/hle_native.c:87-121 (`es3_is_host_code`). What VirtualQuery reports at the
time of a call is a parameter of the call, and whether it was asked is kept with the answer.
-/
namespace Es3Recomp.Source.HostCode
open Library.IntervalCache Source.ArgString

def HOST_REGIONS : Nat := 64

/-- `PAGE_EXECUTE | PAGE_EXECUTE_READ | PAGE_EXECUTE_READWRITE | PAGE_EXECUTE_WRITECOPY` -/
def PAGE_EXECUTE_ANY : UInt32 := 0x10 ||| 0x20 ||| 0x40 ||| 0x80

/-- `guest_image_base()` and `guest_image_size()` -/
structure Image where
  base : UInt32
  size : UInt32

def Image.inside (image : Image) (va : UInt32) : Bool :=
  image.base ≤ va && va < image.base + image.size

abbrev VirtualQuery := UInt32 → Option RegionInfo

def executable (mbi : RegionInfo) : Bool :=
  mbi.state = MEM_COMMIT && mbi.protect &&& PAGE_EXECUTE_ANY ≠ 0

/-- `g_host_code[g_host_n]`, as it is put there -/
def region (mbi : RegionInfo) : Extent UInt32 :=
  ⟨mbi.baseAddress, mbi.baseAddress + mbi.regionSize⟩

def es3IsHostCode (image : Image) (virtualQuery : VirtualQuery) (g : List (Extent UInt32))
    (va : UInt32) : List (Extent UInt32) × Answer :=
  if image.inside va then (g, ⟨false, false⟩)
  else if va < 0x10000 then (g, ⟨false, false⟩)
  else if g.any fun r => r.lo ≤ va && va < r.hi then (g, ⟨true, false⟩)
  else
    match virtualQuery va with
    | none => (g, ⟨false, true⟩)
    | some mbi =>
      if mbi.state ≠ MEM_COMMIT then (g, ⟨false, true⟩)
      else if mbi.protect &&& PAGE_EXECUTE_ANY = 0 then (g, ⟨false, true⟩)
      else
        -- full is not an error: the next call asks again
        (if g.length < HOST_REGIONS then g ++ [region mbi] else g, ⟨true, true⟩)

/-- A call, with the memory as it is then. -/
structure Call where
  virtualQuery : VirtualQuery
  va : UInt32

def calls (image : Image) : Library.Transducer (List (Extent UInt32)) Call Answer where
  step g call :=
    let r := es3IsHostCode image call.virtualQuery g call.va
    (r.1, [r.2])

end Es3Recomp.Source.HostCode
