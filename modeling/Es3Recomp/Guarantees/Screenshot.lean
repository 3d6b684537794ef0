import Es3Recomp.Library.Bmp
import Es3Recomp.Source.Screenshot
import Mathlib.Algebra.BigOperators.Intervals
import Mathlib.Algebra.Group.Nat.Defs
import Mathlib.Data.Finset.Prod

/-!
# What the screenshot says

The file is read by a decoder of its own (`Bmp.pixelAt`), which knows nothing of the frame. The
header's image size is that of one row (src/src/runtime/dxgi_shot.c:92), and so it is right where
there is one row, or nothing in a row.
-/
namespace Es3Recomp.Guarantees.Screenshot
open Library Source.Screenshot

/-- The pixel at `(x, y)` of the frame. -/
def framePixel (px : Nat → UInt8) (pitch : UInt32) (bgra : Bool) (x y : Nat) : Bmp.Rgb :=
  let p := y * pitch.toNat + 4 * x
  if bgra then ⟨px (p + 2), px (p + 1), px p⟩ else ⟨px p, px (p + 1), px (p + 2)⟩

/-- Some channel is above the threshold. -/
def Lit (p : Bmp.Rgb) : Prop := 12 < p.red ∨ 12 < p.green ∨ 12 < p.blue

instance (p : Bmp.Rgb) : Decidable (Lit p) := inferInstanceAs (Decidable (_ ∨ _))

/-- Rows do not overlap, and neither the frame nor the file is too big for 32 bits. -/
structure Fits (w h pitch : UInt32) : Prop where
  apart : 4 * w.toNat ≤ pitch.toNat
  frame : pitch.toNat * h.toNat < 2 ^ 32
  file : 54 + Bmp.stride w.toNat * h.toNat < 2 ^ 32

/-- The file is a picture of the frame. -/
structure Pictures (o : Outcome) (px : Nat → UInt8) (w h pitch : UInt32) (bgra : Bool)
    (f : List UInt8) : Prop where
  written : o.file = some f
  readable : Bmp.Readable f
  columns : Bmp.dword f 18 = w
  rows : Bmp.dword f 22 = h
  sized : Bmp.Sized f
  pixels : ∀ x y, x < w.toNat → y < h.toNat →
    Bmp.pixelAt f x y = some (framePixel px pitch bgra x y)
  lit : o.lit.toNat = ((Finset.range w.toNat ×ˢ Finset.range h.toNat).filter fun p =>
    Lit (framePixel px pitch bgra p.1 p.2)).card

/-! ## A row -/

theorem rowBytes_toNat {w : UInt32} (small : 3 * w.toNat + 3 < 2 ^ 32) :
    (rowBytes w).toNat = Bmp.stride w.toNat := by
  have three : (3 : UInt32).toNat = 3 := rfl
  have sum : (w * 3 + 3).toNat = 3 * w.toNat + 3 := by
    rw [UInt32.toNat_add, UInt32.toNat_mul, three]
    omega
  have mask : (~~~3 : UInt32).toNat = 0xFFFFFFFC := rfl
  have quarters : (3 * w.toNat + 3) / 4 < 2 ^ 30 := by omega
  have high : ((3 * w.toNat + 3) &&& 0xFFFFFFFC) / 4 = (3 * w.toNat + 3) / 4 := by
    have parts := Nat.and_div_two_pow (a := 3 * w.toNat + 3) (b := 0xFFFFFFFC) (n := 2)
    exact parts.trans (Nat.and_two_pow_sub_one_of_lt_two_pow quarters)
  have low : ((3 * w.toNat + 3) &&& 0xFFFFFFFC) % 4 = 0 := by
    have parts := Nat.and_mod_two_pow (a := 3 * w.toNat + 3) (b := 0xFFFFFFFC) (n := 2)
    exact parts.trans (Nat.and_zero _)
  rw [rowBytes, UInt32.toNat_and, sum, mask, Bmp.stride]
  omega

theorem Fits.rowBytes {w h pitch : UInt32} (fits : Fits w h pitch) :
    (rowBytes w).toNat = Bmp.stride w.toNat := by
  have bound := pitch.toNat_lt
  have apart := fits.apart
  exact rowBytes_toNat (by omega)

/-- The order of the bytes of a pixel in the file. -/
def channel (p : Bmp.Rgb) : Nat → UInt8
  | 0 => p.blue
  | 1 => p.green
  | _ => p.red

section Frame

variable {px : Nat → UInt8} {w h pitch : UInt32} {bgra : Bool}

theorem putPixel_eq (src : Nat) (s : Writing) {k y : Nat} (start : src = y * pitch.toNat)
    (small : 4 * k + 3 < 2 ^ 32) :
    putPixel px bgra src s (UInt32.ofNat k) =
      { s with
        line := store s.line (3 * k) ((List.range 3).map
          (channel (framePixel px pitch bgra k y)))
        lit := if Lit (framePixel px pitch bgra k y) then s.lit + 1 else s.lit } := by
  have index (c : UInt32) (offset : c.toNat < 4) :
      (UInt32.ofNat k * 4 + c).toNat = 4 * k + c.toNat := by
    have four : (4 : UInt32).toNat = 4 := rfl
    rw [UInt32.toNat_add, UInt32.toNat_mul, UInt32.toNat_ofNat', four]
    omega
  have column : (UInt32.ofNat k * 3).toNat = 3 * k := by
    have three : (3 : UInt32).toNat = 3 := rfl
    rw [UInt32.toNat_mul, UInt32.toNat_ofNat', three]
    omega
  have whole : k * 4 % 4294967296 = 4 * k := by omega
  have one := index 1 (by decide)
  have two := index 2 (by decide)
  subst start
  cases bgra <;>
    simp [putPixel, framePixel, channel, Lit, List.range_succ, column, whole, one, two,
      Nat.add_assoc]

/-- What stands in a line: the pixels, and behind them nothing. -/
def lineByte (px : Nat → UInt8) (w pitch : UInt32) (bgra : Bool) (y j : Nat) : UInt8 :=
  if j < 3 * w.toNat then channel (framePixel px pitch bgra (j / 3) y) (j % 3) else 0

theorem store_pixel (line : Nat → UInt8) (k a : Nat) (bytes : Nat → UInt8) :
    store line (3 * k) ((List.range 3).map bytes) a =
      if a / 3 = k then bytes (a % 3) else line a := by
  rw [store]
  by_cases here : a / 3 = k
  · have offset : a - 3 * k = a % 3 := by omega
    have inside : a % 3 < 3 := Nat.mod_lt a (by decide)
    rw [if_pos here, if_pos (by omega), offset, List.getD_eq_getElem?_getD]
    simp [inside]
  · rw [if_neg here]
    split
    · rw [List.getD_eq_getElem?_getD, List.getElem?_eq_none (by simp; omega)]
      rfl
    · rfl

/-- The lit pixels among the first `n` of a row. -/
def litAmong (px : Nat → UInt8) (pitch : UInt32) (bgra : Bool) (n y : Nat) : Nat :=
  ((Finset.range n).filter fun x => Lit (framePixel px pitch bgra x y)).card

theorem litAmong_succ (n y : Nat) : litAmong px pitch bgra (n + 1) y =
    litAmong px pitch bgra n y + if Lit (framePixel px pitch bgra n y) then 1 else 0 := by
  rw [litAmong, Finset.range_add_one, Finset.filter_insert]
  split
  · rw [Finset.card_insert_of_notMem (by simp), litAmong]
  · rw [litAmong, Nat.add_zero]

/-- `n` turns of the inner loop. -/
theorem putPixels_eq (src : Nat) (s : Writing) {n y : Nat} (start : src = y * pitch.toNat)
    (small : 4 * n < 2 ^ 32) :
    ((List.range n).map UInt32.ofNat).foldl (putPixel px bgra src) s =
      { s with
        line := fun a => if a < 3 * n then
          channel (framePixel px pitch bgra (a / 3) y) (a % 3) else s.line a
        lit := s.lit + UInt32.ofNat (litAmong px pitch bgra n y) } := by
  induction n with
  | zero => simp [litAmong]
  | succ n ih =>
    rw [List.range_succ, List.map_append, List.foldl_append, ih (by omega)]
    rw [List.map_singleton, List.foldl_cons, List.foldl_nil,
      putPixel_eq src _ start (by omega), litAmong_succ]
    congr 1
    · funext a
      rw [store_pixel]
      dsimp only
      have last : a < 3 * (n + 1) ↔ a / 3 = n ∨ a < 3 * n := by omega
      by_cases here : a / 3 = n
      · rw [if_pos here, if_pos (last.mpr (.inl here)), here]
      · by_cases before : a < 3 * n
        · rw [if_neg here, if_pos before, if_pos (last.mpr (.inr before))]
        · rw [if_neg here, if_neg before, if_neg (by omega)]
    · split
      · rw [UInt32.ofNat_add, UInt32.add_assoc]
        rfl
      · rfl

/-! ## All the rows -/

/-- The rows behind the header, the last of the frame first. -/
def body (px : Nat → UInt8) (w h pitch : UInt32) (bgra : Bool) (n : Nat) : List UInt8 :=
  (List.range n).flatMap fun y =>
    (List.range (Bmp.stride w.toNat)).map (lineByte px w pitch bgra (h.toNat - 1 - y))

/-- What holds after `n` turns of the outer loop. -/
structure Drawn (px : Nat → UInt8) (w h pitch : UInt32) (bgra : Bool) (n : Nat) (s : Writing) :
    Prop where
  clean : ∀ a, 3 * w.toNat ≤ a → s.line a = 0
  lit : s.lit = UInt32.ofNat
    (∑ y ∈ Finset.range n, litAmong px pitch bgra w.toNat (h.toNat - 1 - y))
  file : s.file = hdr w h ++ body px w h pitch bgra n

theorem sourceRow_toNat (fits : Fits w h pitch) {n : Nat} (inside : n < h.toNat) :
    ((h - 1 - UInt32.ofNat n) * pitch).toNat = (h.toNat - 1 - n) * pitch.toNat := by
  have bound := h.toNat_lt
  have one : (1 : UInt32).toNat = 1 := rfl
  have row : (h - 1 - UInt32.ofNat n).toNat = h.toNat - 1 - n := by
    rw [UInt32.toNat_sub, UInt32.toNat_sub, UInt32.toNat_ofNat', one]
    omega
  have frame : (h.toNat - 1 - n) * pitch.toNat ≤ pitch.toNat * h.toNat := by
    rw [Nat.mul_comm]
    exact Nat.mul_le_mul_left _ (by omega)
  rw [UInt32.toNat_mul, row, Nat.mod_eq_of_lt (Nat.lt_of_le_of_lt frame fits.frame)]

theorem putRow_drawn (fits : Fits w h pitch) {n : Nat} (inside : n < h.toNat) {s : Writing}
    (drawn : Drawn px w h pitch bgra n s) :
    Drawn px w h pitch bgra (n + 1)
      (putRow px w h pitch bgra (rowBytes w) s (UInt32.ofNat n)) := by
  have bound := pitch.toNat_lt
  have apart := fits.apart
  have line : (fun a => if a < 3 * w.toNat then
      channel (framePixel px pitch bgra (a / 3) (h.toNat - 1 - n)) (a % 3) else s.line a) =
      lineByte px w pitch bgra (h.toNat - 1 - n) := by
    funext a
    rw [lineByte]
    split
    · rfl
    · exact drawn.clean a (by omega)
  rw [putRow, putPixels_eq _ s (sourceRow_toNat fits inside) (by omega), line, fits.rowBytes]
  refine ⟨?_, ?_, ?_⟩
  · intro a past
    exact if_neg (by omega)
  · dsimp only
    rw [drawn.lit, Finset.sum_range_succ, UInt32.ofNat_add]
  · dsimp only
    rw [drawn.file, List.append_assoc, body, body, List.range_succ, List.flatMap_append,
      List.flatMap_singleton]
    simp only [load, Nat.zero_add]

theorem putRows_drawn (fits : Fits w h pitch) {n : Nat} (inside : n ≤ h.toNat) :
    Drawn px w h pitch bgra n (((List.range n).map UInt32.ofNat).foldl
      (putRow px w h pitch bgra (rowBytes w)) ⟨fun _ => 0, 0, hdr w h⟩) := by
  induction n with
  | zero => exact ⟨fun _ _ => rfl, rfl, (List.append_nil _).symm⟩
  | succ n ih =>
    rw [List.range_succ, List.map_append, List.foldl_append]
    exact putRow_drawn fits inside (ih (by omega))

/-- Rows counted from the bottom are all the rows. -/
theorem sum_litAmong (h : Nat) :
    ∑ y ∈ Finset.range h, litAmong px pitch bgra w.toNat (h - 1 - y) =
      ((Finset.range w.toNat ×ˢ Finset.range h).filter fun p =>
        Lit (framePixel px pitch bgra p.1 p.2)).card := by
  rw [Finset.sum_range_reflect (litAmong px pitch bgra w.toNat) h, Finset.card_filter,
    Finset.sum_product_right]
  apply Finset.sum_congr rfl
  intro y _
  rw [litAmong, Finset.card_filter]

theorem lit_bound (fits : Fits w h pitch) :
    ((Finset.range w.toNat ×ˢ Finset.range h.toNat).filter fun p =>
      Lit (framePixel px pitch bgra p.1 p.2)).card < 2 ^ 32 := by
  have most := Finset.card_filter_le (Finset.range w.toNat ×ˢ Finset.range h.toNat)
    fun p => Lit (framePixel px pitch bgra p.1 p.2)
  rw [Finset.card_product, Finset.card_range, Finset.card_range] at most
  have columns : w.toNat ≤ pitch.toNat := by
    have apart := fits.apart
    omega
  exact Nat.lt_of_le_of_lt (Nat.le_trans most (Nat.mul_le_mul_right _ columns)) fits.frame

end Frame

/-! ## The header -/

section Header

variable {w h : UInt32} (rest : List UInt8)

theorem length_hdr : (hdr w h).length = 54 := length_load _ _

theorem getD_hdr {k : Nat} (inside : k < 54) :
    (hdr w h ++ rest).getD k 0 = storeAll (fun _ => 0) (hdrStores w h) k := by
  have there : k < (hdr w h).length := by rwa [length_hdr]
  rw [List.getD_eq_getElem?_getD, List.getElem?_append_left there, List.getElem?_eq_getElem there]
  simp [hdr, load]

theorem dword_hdr {k : Nat} (inside : k + 4 ≤ 54) : Bmp.dword (hdr w h ++ rest) k =
    let mem := storeAll (fun _ => 0) (hdrStores w h)
    leWord (mem k) (mem (k + 1)) (mem (k + 2)) (mem (k + 3)) := by
  rw [Bmp.dword, getD_hdr rest (by omega), getD_hdr rest (by omega), getD_hdr rest (by omega),
    getD_hdr rest (by omega)]

theorem word_hdr {k : Nat} (inside : k + 2 ≤ 54) : Bmp.word (hdr w h ++ rest) k =
    let mem := storeAll (fun _ => 0) (hdrStores w h)
    (mem k).toNat + 0x100 * (mem (k + 1)).toNat := by
  rw [Bmp.word, getD_hdr rest (by omega), getD_hdr rest (by omega)]

theorem size_hdr : Bmp.dword (hdr w h ++ rest) 2 = 54 + rowBytes w * h :=
  (dword_hdr rest (by decide)).trans (leWord_leBytes _)

theorem start_hdr : Bmp.dataStart (hdr w h ++ rest) = 54 :=
  congrArg UInt32.toNat (dword_hdr rest (by decide))

theorem columns_hdr : Bmp.dword (hdr w h ++ rest) 18 = w :=
  (dword_hdr rest (by decide)).trans (leWord_leBytes w)

theorem rows_hdr : Bmp.dword (hdr w h ++ rest) 22 = h :=
  (dword_hdr rest (by decide)).trans (leWord_leBytes h)

theorem imageSize_hdr : Bmp.dword (hdr w h ++ rest) 34 = rowBytes w :=
  (dword_hdr rest (by decide)).trans (leWord_leBytes _)

theorem readable_hdr : Bmp.Readable (hdr w h ++ rest) where
  magic := by
    rw [List.take_append_of_le_length (by rw [length_hdr]; decide)]
    rfl
  info := dword_hdr rest (by decide)
  planes := word_hdr rest (by decide)
  depth := word_hdr rest (by decide)
  plain := dword_hdr rest (by decide)

end Header

/-! ## The file -/

section File

variable {px : Nat → UInt8} {w h pitch : UInt32} {bgra : Bool}

/-- What is in the file in the end. -/
def drawing (px : Nat → UInt8) (w h pitch : UInt32) (bgra : Bool) : List UInt8 :=
  hdr w h ++ body px w h pitch bgra h.toNat

theorem length_drawing :
    (drawing px w h pitch bgra).length = 54 + h.toNat * Bmp.stride w.toNat := by
  rw [drawing, body, List.length_append, length_hdr, Bmp.length_rows h.toNat _ fun y =>
    lineByte px w pitch bgra (h.toNat - 1 - y)]

theorem width_drawing : Bmp.width (drawing px w h pitch bgra) = w.toNat :=
  congrArg UInt32.toNat (columns_hdr _)

theorem bottomUp_drawing (upward : h.toNat < 0x80000000) :
    Bmp.BottomUp (drawing px w h pitch bgra) ∧
      Bmp.height (drawing px w h pitch bgra) = h.toNat := by
  have field : Bmp.dword (drawing px w h pitch bgra) 22 = h := rows_hdr _
  have signed : Bmp.BottomUp (drawing px w h pitch bgra) := by
    rw [Bmp.BottomUp, field]
    exact upward
  exact ⟨signed, by rw [Bmp.height, if_pos signed, field]⟩

/-- A picture that has columns is not so high that its height is negative. -/
theorem upward_of_fits (fits : Fits w h pitch) (columns : 0 < w.toNat) : h.toNat < 0x80000000 := by
  have some_ : 4 ≤ Bmp.stride w.toNat := by
    rw [Bmp.stride]
    omega
  have high : 4 * h.toNat ≤ Bmp.stride w.toNat * h.toNat := Nat.mul_le_mul_right _ some_
  have file := fits.file
  omega

theorem sized_drawing (fits : Fits w h pitch) : Bmp.Sized (drawing px w h pitch bgra) := by
  have start : Bmp.dataStart (drawing px w h pitch bgra) = 54 := start_hdr _
  have file := fits.file
  refine ⟨?_, start, ?_⟩
  · have field : Bmp.dword (drawing px w h pitch bgra) 2 = 54 + rowBytes w * h := size_hdr _
    have header : (54 : UInt32).toNat = 54 := rfl
    rw [length_drawing, field, UInt32.toNat_add, UInt32.toNat_mul, fits.rowBytes, header,
      Nat.mul_comm h.toNat]
    omega
  · rw [length_drawing, start, width_drawing]
    rcases Nat.eq_zero_or_pos w.toNat with none_ | columns
    · rw [none_]
      rfl
    · rw [(bottomUp_drawing (upward_of_fits fits columns)).2]

theorem pixelAt_drawing (fits : Fits w h pitch) {x y : Nat} (left : x < w.toNat)
    (above : y < h.toNat) :
    Bmp.pixelAt (drawing px w h pitch bgra) x y = some (framePixel px pitch bgra x y) := by
  have shape : Bmp.BottomUp (drawing px w h pitch bgra) ∧
      Bmp.height (drawing px w h pitch bgra) = h.toNat :=
    bottomUp_drawing (upward_of_fits fits (Nat.zero_lt_of_lt left))
  have split : drawing px w h pitch bgra = hdr w h ++ (List.range h.toNat).flatMap fun y =>
    (List.range (Bmp.stride w.toNat)).map (lineByte px w pitch bgra (h.toNat - 1 - y)) := rfl
  have start : Bmp.dataStart (drawing px w h pitch bgra) = (hdr w h).length := by
    rw [length_hdr]
    exact start_hdr _
  have mirrored : h.toNat - 1 - (h.toNat - 1 - y) = y := by omega
  have byte (j : Nat) (inside : j < 3) : lineByte px w pitch bgra y (3 * x + j) =
      channel (framePixel px pitch bgra x y) j := by
    have pixel : (3 * x + j) / 3 = x := by omega
    have offset : (3 * x + j) % 3 = j := by omega
    rw [lineByte, if_pos (by omega), pixel, offset]
  have found := Bmp.pixelAt_rows split (readable_hdr _) start shape.1 width_drawing shape.2 left
    above
  rw [found, mirrored, byte 2 (by decide), byte 1 (by decide)]
  exact congrArg some (congrArg (Bmp.Rgb.mk _ _) (byte 0 (by decide)))

/-- All but the size of the image. -/
theorem pictures_drawing (fits : Fits w h pitch) (lit : UInt32) :
    Pictures (writeBmp true true px w h pitch bgra lit) px w h pitch bgra
      (drawing px w h pitch bgra) := by
  have drawn : Drawn px w h pitch bgra h.toNat (((List.range h.toNat).map UInt32.ofNat).foldl
      (putRow px w h pitch bgra (rowBytes w)) ⟨fun _ => 0, 0, hdr w h⟩) :=
    putRows_drawn fits (Nat.le_refl _)
  exact
    { written := congrArg some drawn.file
      readable := readable_hdr _
      columns := columns_hdr _
      rows := rows_hdr _
      sized := sized_drawing fits
      pixels := fun x y left above => pixelAt_drawing fits left above
      lit := by
        have count := congrArg UInt32.toNat drawn.lit
        rw [sum_litAmong, UInt32.toNat_ofNat', Nat.mod_eq_of_lt (lit_bound fits)] at count
        exact count }

theorem imageSized_iff (fits : Fits w h pitch) :
    Bmp.ImageSized (drawing px w h pitch bgra) ↔ h = 1 ∨ w = 0 := by
  have start : Bmp.dataStart (drawing px w h pitch bgra) = 54 := start_hdr _
  have field : Bmp.dword (drawing px w h pitch bgra) 34 = rowBytes w := imageSize_hdr _
  have none_ : w = 0 ↔ Bmp.stride w.toNat = 0 := by
    rw [← UInt32.toNat_inj, Bmp.stride, show (0 : UInt32).toNat = 0 from rfl]
    omega
  have one : h = 1 ↔ h.toNat = 1 := UInt32.toNat_inj.symm
  rw [Bmp.ImageSized, field, fits.rowBytes, length_drawing, start, Nat.add_sub_cancel_left, none_, one]
  constructor
  · intro same
    rcases Nat.eq_zero_or_pos (Bmp.stride w.toNat) with empty | columns
    · exact .inr empty
    · exact .inl (Nat.eq_of_mul_eq_mul_right columns (by rw [Nat.one_mul]; exact same.symm))
  · intro right
    rcases right with single | empty
    · rw [single, Nat.one_mul]
    · rw [empty, Nat.mul_zero]

end File

theorem writeBmp_produced {fopen calloc : Bool} {px : Nat → UInt8} {w h pitch : UInt32}
    {bgra : Bool} {lit : UInt32}
    (produced : (writeBmp fopen calloc px w h pitch bgra lit).ret = 1) :
    fopen = true ∧ calloc = true := by
  cases fopen
  · exact absurd produced (show (0 : Int) ≠ 1 by decide)
  · cases calloc
    · exact absurd produced (show (0 : Int) ≠ 1 by decide)
    · exact ⟨rfl, rfl⟩

/-- The file that is produced pictures the frame, and all its sizes are right just when there is
one row, or nothing in the rows. -/
theorem write_bmp_iff (fopen calloc : Bool) (px : Nat → UInt8) {w h pitch : UInt32} (bgra : Bool)
    (lit : UInt32) (fits : Fits w h pitch)
    (produced : (writeBmp fopen calloc px w h pitch bgra lit).ret = 1) :
    (∃ f, Pictures (writeBmp fopen calloc px w h pitch bgra lit) px w h pitch bgra f ∧
      Bmp.ImageSized f) ↔ h = 1 ∨ w = 0 := by
  obtain ⟨rfl, rfl⟩ := writeBmp_produced produced
  have pictures : Pictures (writeBmp true true px w h pitch bgra lit) px w h pitch bgra
      (drawing px w h pitch bgra) := pictures_drawing fits lit
  have sizes : Bmp.ImageSized (drawing px w h pitch bgra) ↔ h = 1 ∨ w = 0 := imageSized_iff fits
  rw [← sizes]
  constructor
  · intro matching
    obtain ⟨f, other, sized⟩ := matching
    have same : f = drawing px w h pitch bgra :=
      Option.some.inj (other.written.symm.trans pictures.written)
    rwa [same] at sized
  · intro sized
    exact ⟨_, pictures, sized⟩

/-- Two pixels, one above the other. -/
def twoRows (k : Nat) : UInt8 := UInt8.ofNat (16 * k)

theorem one_row_sized : (∃ f, Pictures (writeBmp true true twoRows 2 1 8 true 0) twoRows 2 1 8
    true f ∧ Bmp.ImageSized f) ↔ (1 : UInt32) = 1 ∨ (2 : UInt32) = 0 :=
  write_bmp_iff true true twoRows true 0 ⟨by decide, by decide, by decide⟩ (by decide)

/-- 62 bytes, of which the header says that four are the image. -/
theorem two_rows_unsized :
    ¬ ∃ f, Pictures (writeBmp true true twoRows 1 2 4 true 0) twoRows 1 2 4 true f ∧
      Bmp.ImageSized f := by
  intro matching
  obtain ⟨f, pictures, sized⟩ := matching
  have written : (writeBmp true true twoRows 1 2 4 true 0).file =
      some (drawing twoRows 1 2 4 true) := by
    decide +kernel
  have same : f = drawing twoRows 1 2 4 true :=
    Option.some.inj (pictures.written.symm.trans written)
  rw [same] at sized
  have wrong : ¬ Bmp.ImageSized (drawing twoRows 1 2 4 true) := by
    rw [Bmp.ImageSized]
    decide +kernel
  exact wrong sized

end Es3Recomp.Guarantees.Screenshot
