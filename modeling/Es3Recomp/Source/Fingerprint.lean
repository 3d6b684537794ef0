import Es3Recomp.Library.XorHash

/-!
# Which executable a build was lifted from

Source: src/tools/recomp/driver.py:409-435 (`image_fingerprint`), 438-450 (recomp_image.h, as
`emit_headers` writes it), src/src/runtime/guest.c:611-645 (`file_fingerprint`,
`check_image`). Python's integers are natural numbers here; a `size_t` of the runtime has 32
bits. The three macros of the header are its numbers and its name, not their spelling.
-/
namespace Es3Recomp.Source.Fingerprint
open Library

/-! ## The driver -/

/-- `((h ^ b) * 0x100000001B3) & 0xFFFFFFFFFFFFFFFF` -/
def pythonTurn (h : Nat) (b : UInt8) : Nat :=
  ((h ^^^ b.toNat) * 0x100000001B3) &&& 0xFFFFFFFFFFFFFFFF

/-- The `while True`, on what `f.read` returns from here on; an empty block is the end. -/
def fingerprintLoop : Nat → List (List UInt8) → Nat
  | h, [] => h
  | h, chunk :: chunks =>
    if chunk = [] then h else fingerprintLoop (chunk.foldl pythonTurn h) chunks

/-- `image_fingerprint` -/
def imageFingerprint (chunks : List (List UInt8)) : Nat :=
  fingerprintLoop 0xCBF29CE484222325 chunks

/-- What `f.read` returned for a file: blocks of any size up to the end of the file. -/
structure ReadAs (file : List UInt8) (chunks : List (List UInt8)) : Prop where
  whole : chunks.flatten = file
  some : ∀ chunk ∈ chunks, chunk ≠ []

/-- recomp_image.h: ES3_IMAGE_NAME, ES3_IMAGE_SIZE, ES3_IMAGE_HASH. -/
structure ImageHeader where
  name : List Char
  size : Nat
  hash : Nat
  deriving DecidableEq

/-- As `emit_headers` fills it in, for a file of that base name. -/
def emitImage (name : List Char) (file : List UInt8) (chunks : List (List UInt8)) : ImageHeader :=
  ⟨name, file.length, imageFingerprint chunks⟩

/-! ## The runtime -/

/-- `file_fingerprint` -/
def fileFingerprint (file : List UInt8) : UInt64 :=
  file.foldl (fun h b => (h ^^^ b.toUInt64) * 0x100000001B3) 0xCBF29CE484222325

/-- `strrchr(path, c)`, as an offset. -/
def strrchr (path : List Char) (c : Char) : Option Nat :=
  match path.reverse.idxOf? c with
  | some i => some (path.length - 1 - i)
  | none => none

/-- The part of the path behind the last separator of either kind. -/
def leafOf (path : List Char) : List Char :=
  match strrchr path '\x5c', strrchr path '/' with
  | none, none => path
  | some leaf, none => path.drop (leaf + 1)
  | none, some leaf2 => path.drop (leaf2 + 1)
  | some leaf, some leaf2 => path.drop (max leaf leaf2 + 1)

/-- What the warning names: the file of the build and the one that is loaded. -/
structure Warning where
  liftedFrom : ImageHeader
  leaf : List Char
  len : UInt32
  got : UInt64
  deriving DecidableEq

/-- `check_image`: the warning, if there is one; `none` for a build without the header. -/
def checkImage (build : Option ImageHeader) (path : List Char) (file : List UInt8) :
    Option Warning :=
  match build with
  | none => none
  | some image =>
    let got := fileFingerprint file
    let len := UInt32.ofNat file.length
    if got = UInt64.ofNat image.hash ∧ len = UInt32.ofNat image.size then none
    else some ⟨image, leafOf path, len, got⟩

end Es3Recomp.Source.Fingerprint
