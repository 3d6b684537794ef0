import Mathlib.Algebra.Group.Nat.Defs
import Es3Recomp.Library.ByteMemory
import Es3Recomp.Library.Traced
import Es3Recomp.Library.WordMemory

/-!
# Loading the game's executable

Source: src/src/runtime/guest.c:53-62 (`rd32le`, `rd16le`), 611-645 (`check_image`), 652-729
(`guest_load` up to the last section), 910-918 (`es3_guest_snapshot`). The program is a 32-bit
one: an offset from the file's buffer is a pointer less another, and wraps. What an access
outside the buffer finds is whatever the process has there.
-/
namespace Es3Recomp.Source.GuestLoad
open Library Library.Traced

/-- How the process answers. `around` is what lies at an offset outside the buffer. -/
structure Host where
  fopen : Bool
  malloc : Bool
  /-- `fread` delivers the whole file -/
  fread : Bool
  reserve : UInt32 → UInt32 → Bool
  around : UInt32 → UInt8

inductive Access where
  | read (offset : UInt32) (size : Nat)
  | write (address : UInt32) (bytes : List UInt8)

/-- Where `guest_load` gives up. After `cannotMap` a child takes over that has the range
reserved, and this process ends with it. -/
inductive Refused where
  | cannotOpen | shortRead | notPE | noSignature | notI386 | cannotMap

/-- What is left in the globals; `code` is the range that `es3_guest_snapshot` copied. -/
structure Loaded where
  base : UInt32
  entry : UInt32
  imageSize : UInt32
  code : Option (UInt32 × UInt32)

abbrev Load := Traced Refused Access

/-! ## The file's buffer -/

abbrev Image := Memory32

def Host.image (host : Host) (file : List UInt8) : Image :=
  fun offset => file.getD offset.toNat (host.around offset)

def slice (img : Image) (p : UInt32) (n : Nat) : List UInt8 :=
  (List.range n).map fun k => img (p + UInt32.ofNat k)

def rd8 (img : Image) (p : UInt32) : Load UInt8 := find (.read p 1) (img p)

def rd16le (img : Image) (p : UInt32) : Load UInt32 := find (.read p 2) (word img p)

def rd32le (img : Image) (p : UInt32) : Load UInt32 := find (.read p 4) (dword img p)

/-- A comparison with `text`, as `memcmp` makes it. -/
def memcmp (img : Image) (p : UInt32) (text : List UInt8) : Load Bool :=
  find (.read p text.length) (slice img p text.length != text)

def memset (address : UInt32) (n : UInt32) : Load Unit :=
  find (.write address (List.replicate n.toNat 0)) ()

def memcpy (img : Image) (address : UInt32) (p n : UInt32) : Load Unit := do
  find (.read p n.toNat) ()
  find (.write address (slice img p n.toNat)) ()

/-! ## The loader -/

/-- `ftell` at the end of the file; it is a `long`, and fails past what that can hold. -/
def ftell (file : List UInt8) : Int := if file.length < 2 ^ 31 then file.length else -1

def signature : List UInt8 := [0x50, 0x45, 0, 0]

/-- Every byte of the file goes into the fingerprint; the outcome is only said. -/
def check_image (len : UInt32) : Load Unit := find (.read 0 len.toNat) ()

/-- It copies the first range that it is given and that is not empty. -/
def es3_guest_snapshot (code : Option (UInt32 × UInt32)) (lo hi : UInt32) :
    Option (UInt32 × UInt32) :=
  if code.isSome ∨ hi ≤ lo then code else some (lo, hi)

def copy_sections (img : Image) (len base : UInt32) :
    Nat → UInt32 → Option (UInt32 × UInt32) → Load (Option (UInt32 × UInt32))
  | 0, _, code => pure code
  | n + 1, sec, code => do
    let vaddr ← rd32le img (sec + 12)
    let rsize ← rd32le img (sec + 16)
    let roff ← rd32le img (sec + 20)
    if rsize = 0 ∨ roff + rsize > len then copy_sections img len base n (sec + 40) code
    else do
      memcpy img (base + vaddr) roff rsize
      let flags ← rd32le img (sec + 36)
      let code' := if flags &&& 0x20000000 ≠ 0
        then es3_guest_snapshot code (base + vaddr) (base + vaddr + rsize) else code
      copy_sections img len base n (sec + 40) code'

/-- Headers and sections into the range at `base`, which is reserved; `sec` is the section table. -/
def copy_image (img : Image) (len base image_size hdr_size : UInt32) (nsections : Nat)
    (sec : UInt32) : Load (Option (UInt32 × UInt32)) := do
  memset base image_size
  memcpy img base 0 (if hdr_size < len then hdr_size else len)
  check_image len
  copy_sections img len base nsections sec none

/-- From the signature on, with the file in the buffer. -/
def load_image (host : Host) (img : Image) (len pe : UInt32) : Load Loaded := do
  let differs ← memcmp img pe signature
  refuseIf (differs = true) .noSignature
  let machine ← rd16le img (pe + 4)
  refuseIf (machine ≠ 0x014C) .notI386
  let nsections ← rd16le img (pe + 6)
  let opt_size ← rd16le img (pe + 20)
  let opt := pe + 24
  let base ← rd32le img (opt + 28)
  let start ← rd32le img (opt + 16)
  let image_size ← rd32le img (opt + 56)
  let hdr_size ← rd32le img (opt + 60)
  refuseIf (host.reserve base image_size = false) .cannotMap
  let code ← copy_image img len base image_size hdr_size nsections.toNat (opt + opt_size)
  pure ⟨base, base + start, image_size, code⟩

def guest_load (host : Host) (file : List UInt8) : Load Loaded := do
  refuseIf (host.fopen = false) .cannotOpen
  refuseIf (host.malloc = false ∨ ftell file ≤ 0 ∨ host.fread = false) .shortRead
  let img := host.image file
  let len := UInt32.ofNat file.length
  refuseIf (len < 0x40) .notPE
  let m ← rd8 img 0
  refuseIf (m ≠ 0x4D) .notPE
  let z ← rd8 img 1
  refuseIf (z ≠ 0x5A) .notPE
  let pe ← rd32le img 0x3C
  refuseIf (pe + 0x78 > len) .noSignature
  load_image host img len pe

end Es3Recomp.Source.GuestLoad
