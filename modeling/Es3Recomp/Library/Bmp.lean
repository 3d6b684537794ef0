import Es3Recomp.Library.LittleEndian
import Mathlib.Data.List.Basic

/-!
# BMP files with 24 bits a pixel

What a reader makes of the bytes: a file header of 14 bytes, an info header of 40, then rows of
blue, green and red, each padded to four bytes. The height is signed: the rows go up in the file
where it is positive, and down where it is negative.
-/
namespace Es3Recomp.Library.Bmp

structure Rgb where
  red : UInt8
  green : UInt8
  blue : UInt8
  deriving DecidableEq

def dword (f : List UInt8) (k : Nat) : UInt32 :=
  leWord (f.getD k 0) (f.getD (k + 1) 0) (f.getD (k + 2) 0) (f.getD (k + 3) 0)

def word (f : List UInt8) (k : Nat) : Nat := (f.getD k 0).toNat + 0x100 * (f.getD (k + 1) 0).toNat

def dataStart (f : List UInt8) : Nat := (dword f 10).toNat

def width (f : List UInt8) : Nat := (dword f 18).toNat

def BottomUp (f : List UInt8) : Prop := (dword f 22).toNat < 0x80000000

instance (f : List UInt8) : Decidable (BottomUp f) := inferInstanceAs (Decidable (_ < _))

def height (f : List UInt8) : Nat :=
  if BottomUp f then (dword f 22).toNat else 0x100000000 - (dword f 22).toNat

/-- The bytes of a row, in whole groups of 32 bits. -/
def stride (w : Nat) : Nat := (24 * w + 31) / 32 * 4

/-- An uncompressed file of this kind. -/
structure Readable (f : List UInt8) : Prop where
  magic : f.take 2 = [0x42, 0x4D]
  info : dword f 14 = 40
  planes : word f 26 = 1
  depth : word f 28 = 24
  plain : dword f 30 = 0

instance (f : List UInt8) : Decidable (Readable f) :=
  decidable_of_iff (f.take 2 = [0x42, 0x4D] ∧ dword f 14 = 40 ∧ word f 26 = 1 ∧ word f 28 = 24 ∧
      dword f 30 = 0)
    ⟨fun ⟨magic, info, planes, depth, plain⟩ => ⟨magic, info, planes, depth, plain⟩,
      fun ⟨magic, info, planes, depth, plain⟩ => ⟨magic, info, planes, depth, plain⟩⟩

/-- The pixel at `(x, y)`, counted from the top left. -/
def pixelAt (f : List UInt8) (x y : Nat) : Option Rgb :=
  if Readable f ∧ x < width f ∧ y < height f then do
    let row := if BottomUp f then height f - 1 - y else y
    let p := dataStart f + row * stride (width f) + 3 * x
    let blue ← f[p]?
    let green ← f[p + 1]?
    let red ← f[p + 2]?
    return ⟨red, green, blue⟩
  else none

/-- The three sizes that the headers hold are those of what follows, the one of the image only
if it is asked for. -/
structure Sized (f : List UInt8) : Prop where
  file : (dword f 2).toNat = f.length
  start : dataStart f = 54
  padded : f.length = dataStart f + height f * stride (width f)

def ImageSized (f : List UInt8) : Prop := (dword f 34).toNat = f.length - dataStart f

/-! ## Rows -/

theorem length_rows {α : Type} (h r : Nat) (line : Nat → Nat → α) :
    ((List.range h).flatMap fun y => (List.range r).map (line y)).length = h * r := by
  induction h with
  | zero => simp
  | succ h ih =>
    rw [List.range_succ, List.flatMap_append, List.length_append, ih, Nat.succ_mul]
    simp

theorem getElem?_rows {α : Type} {h r : Nat} (line : Nat → Nat → α) {y j : Nat} (inside : y < h)
    (within : j < r) :
    ((List.range h).flatMap fun y => (List.range r).map (line y))[y * r + j]? =
      some (line y j) := by
  induction h with
  | zero => exact absurd inside (Nat.not_lt_zero y)
  | succ h ih =>
    have length := length_rows h r line
    rw [List.range_succ, List.flatMap_append]
    rcases Nat.lt_succ_iff_lt_or_eq.mp inside with before | rfl
    · have room : y * r + j < h * r := by
        have whole : (y + 1) * r ≤ h * r := Nat.mul_le_mul_right r before
        rw [Nat.succ_mul] at whole
        omega
      rw [List.getElem?_append_left (by rwa [length]), ih before]
    · rw [List.getElem?_append_right (by rw [length]; exact Nat.le_add_right _ _), length,
        Nat.add_sub_cancel_left]
      simp [within]

/-- Three bytes of a padded row are a pixel. -/
theorem pixelAt_rows {f hd : List UInt8} {w h : Nat} {line : Nat → Nat → UInt8}
    (split : f = hd ++ (List.range h).flatMap fun y => (List.range (stride w)).map (line y))
    (readable : Readable f) (start : dataStart f = hd.length) (upward : BottomUp f)
    (columns : width f = w) (rows : height f = h) {x y : Nat} (left : x < w) (above : y < h) :
    pixelAt f x y =
      some ⟨line (h - 1 - y) (3 * x + 2), line (h - 1 - y) (3 * x + 1),
        line (h - 1 - y) (3 * x)⟩ := by
  have byte (j : Nat) (within : j < stride w) :
      f[dataStart f + (h - 1 - y) * stride w + j]? = some (line (h - 1 - y) j) := by
    have mirrored : h - 1 - y < h := by omega
    rw [start, Nat.add_assoc, split, List.getElem?_append_right (Nat.le_add_right _ _),
      Nat.add_sub_cancel_left]
    exact getElem?_rows line mirrored within
  have room : 3 * x + 2 < stride w := by
    rw [stride]
    omega
  have blue := byte (3 * x) (by omega)
  have green := byte (3 * x + 1) (by omega)
  have red := byte (3 * x + 2) room
  have there : Readable f ∧ x < width f ∧ y < height f :=
    ⟨readable, by rwa [columns], by rwa [rows]⟩
  rw [← Nat.add_assoc] at green red
  rw [pixelAt, if_pos there]
  simp only [if_pos upward, columns, rows]
  rw [blue, green, red]
  rfl

end Es3Recomp.Library.Bmp
