import Es3Recomp.Library.ByteMemory
import Es3Recomp.Library.LittleEndian
import Mathlib.Data.UInt

/-!
# A presented frame, as a file

Source: src/src/runtime/dxgi_shot.c:69-112 (`write_bmp`). The frame is its bytes, `size_t` has 32
bits as everything else, and what is written to a file that is open gets there. Whether it can be
opened, and whether there is memory for a line, are parameters.
-/
namespace Es3Recomp.Source.Screenshot
open Library

structure Writing where
  line : Nat → UInt8
  lit : UInt32
  file : List UInt8

/-- The body of the inner loop. -/
def putPixel (px : Nat → UInt8) (bgra : Bool) (src : Nat) (s : Writing) (x : UInt32) : Writing :=
  let r := px (src + (x * 4 + if bgra then 2 else 0).toNat)
  let g := px (src + (x * 4 + 1).toNat)
  let b := px (src + (x * 4 + if bgra then 0 else 2).toNat)
  { s with
    line := store s.line (x * 3).toNat [b, g, r]
    lit := if r > 12 ∨ g > 12 ∨ b > 12 then s.lit + 1 else s.lit }

/-- The body of the outer loop. -/
def putRow (px : Nat → UInt8) (w h pitch : UInt32) (bgra : Bool) (row : UInt32) (s : Writing)
    (y : UInt32) : Writing :=
  let src := ((h - 1 - y) * pitch).toNat
  let s := ((List.range w.toNat).map UInt32.ofNat).foldl (putPixel px bgra src) s
  { s with file := s.file ++ load s.line ⟨0, row.toNat⟩ }

/-- `row` -/
def rowBytes (w : UInt32) : UInt32 := (w * 3 + 3) &&& ~~~3

/-- What is set in `hdr`, in this order. -/
def hdrStores (w h : UInt32) : List (Nat × List UInt8) :=
  [(0, [0x42]), (1, [0x4D]), (2, leBytes (54 + rowBytes w * h)), (10, [54]), (14, [40]),
    (18, leBytes w), (22, leBytes h), (26, [1]), (28, [24]), (34, leBytes (rowBytes w))]

def hdr (w h : UInt32) : List UInt8 := load (storeAll (fun _ => 0) (hdrStores w h)) ⟨0, 54⟩

/-- What the caller gets, and what is on the disk afterwards. -/
structure Outcome where
  ret : Int
  lit : UInt32
  file : Option (List UInt8)

def writeBmp (fopen calloc : Bool) (px : Nat → UInt8) (w h pitch : UInt32) (bgra : Bool)
    (lit : UInt32) : Outcome :=
  if ¬ fopen then ⟨0, lit, none⟩
  else if ¬ calloc then ⟨0, lit, some []⟩
  else
    let s := ((List.range h.toNat).map UInt32.ofNat).foldl
      (putRow px w h pitch bgra (rowBytes w)) ⟨fun _ => 0, 0, hdr w h⟩
    ⟨1, s.lit, some s.file⟩

end Es3Recomp.Source.Screenshot
