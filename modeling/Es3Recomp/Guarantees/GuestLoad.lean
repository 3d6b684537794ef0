import Mathlib.Data.Nat.Basic
import Es3Recomp.Source.GuestLoad

/-!
# When loading an executable stays inside the file and inside the image

`guest_load` (src/src/runtime/guest.c:652-729) adds 32-bit values of the file before it
compares them, compares no address of a section with the size of the image, and reads every
header the section count asks for. What follows is the exact condition on the file under
which all its accesses are inside.
-/
namespace Es3Recomp.Guarantees.GuestLoad
open Library Library.Traced Source.GuestLoad

/-- Reads lie in `[0, len)` of the file, writes in `[base, base + size)`. -/
def Inside (len : Nat) (base size : UInt32) : Access → Prop
  | .read offset n => Span.Within ⟨offset.toNat, n⟩ ⟨0, len⟩
  | .write address bytes => Span.Within ⟨address.toNat, bytes.length⟩ ⟨base.toNat, size.toNat⟩

instance (len : Nat) (base size : UInt32) : DecidablePred (Inside len base size)
  | .read _ _ => inferInstanceAs (Decidable (Span.Within _ _))
  | .write _ _ => inferInstanceAs (Decidable (Span.Within _ _))

/-! ## The fields of the file -/

def peOf (img : Image) : UInt32 := dword img 0x3C

def imageBase (img : Image) : UInt32 := dword img (peOf img + 24 + 28)

def imageSize (img : Image) : UInt32 := dword img (peOf img + 24 + 56)

def headerSize (img : Image) : UInt32 := dword img (peOf img + 24 + 60)

def nsections (img : Image) : Nat := (word img (peOf img + 6)).toNat

def sectionHeader (img : Image) (i : Nat) : UInt32 :=
  peOf img + 24 + word img (peOf img + 20) + 40 * UInt32.ofNat i

/-- The loader's own test, with its sum of 32 bits. -/
def Copied (img : Image) (len : Nat) (sec : UInt32) : Prop :=
  ¬(dword img (sec + 16) = 0 ∨ dword img (sec + 20) + dword img (sec + 16) > UInt32.ofNat len)

/-- The front of the section's header is in the file. Where the section is copied, all of its
header and all of its data are, and the image has room for it. -/
def SectionFits (img : Image) (len : Nat) (size sec : UInt32) : Prop :=
  sec.toNat + 24 ≤ len ∧
    (Copied img len sec →
      (dword img (sec + 20)).toNat + (dword img (sec + 16)).toNat ≤ len ∧
      (dword img (sec + 12)).toNat + (dword img (sec + 16)).toNat ≤ size.toNat ∧
      sec.toNat + 40 ≤ len)

/-- The file passes every test up to the one of `e_lfanew`, a sum of 32 bits too. -/
def LooksLikePE (host : Host) (file : List UInt8) : Prop :=
  host.fopen = true ∧ (host.malloc = true ∧ 0 < ftell file ∧ host.fread = true) ∧
    0x40 ≤ UInt32.ofNat file.length ∧ host.image file 0 = 0x4D ∧ host.image file 1 = 0x5A ∧
    peOf (host.image file) + 0x78 ≤ UInt32.ofNat file.length

/-- What comes after it is a signature, the right machine and a range that can be had. -/
def Mapped (host : Host) (img : Image) : Prop :=
  slice img (peOf img) 4 = signature ∧ word img (peOf img + 4) = 0x014C ∧
    host.reserve (imageBase img) (imageSize img) = true

def HeadersFit (img : Image) (len : Nat) : Prop :=
  min (headerSize img).toNat len ≤ (imageSize img).toNat

def Fits (host : Host) (file : List UInt8) : Prop :=
  LooksLikePE host file →
    (peOf (host.image file)).toNat + 0x78 ≤ file.length ∧
    (Mapped host (host.image file) →
      HeadersFit (host.image file) file.length ∧
      ∀ i < nsections (host.image file),
        SectionFits (host.image file) file.length (imageSize (host.image file))
          (sectionHeader (host.image file) i))

instance (img : Image) (len : Nat) (sec : UInt32) : Decidable (Copied img len sec) :=
  inferInstanceAs (Decidable (¬_))
instance (img : Image) (len : Nat) (size sec : UInt32) :
    Decidable (SectionFits img len size sec) := inferInstanceAs (Decidable (_ ∧ _))
instance (host : Host) (file : List UInt8) : Decidable (LooksLikePE host file) :=
  inferInstanceAs (Decidable (_ ∧ _))
instance (host : Host) (img : Image) : Decidable (Mapped host img) :=
  inferInstanceAs (Decidable (_ ∧ _))
instance (img : Image) (len : Nat) : Decidable (HeadersFit img len) :=
  inferInstanceAs (Decidable (_ ≤ _))
instance (host : Host) (file : List UInt8) : Decidable (Fits host file) :=
  inferInstanceAs (Decidable (_ → _))

/-! ## One access -/

theorem inside_read {len : Nat} {base size : UInt32} (offset : UInt32) (n : Nat) :
    Inside len base size (.read offset n) ↔ offset.toNat + n ≤ len := by
  simp [Inside, Span.Within]

@[simp] theorem length_slice (img : Image) (p : UInt32) (n : Nat) : (slice img p n).length = n := by
  simp [slice]

/-- Where the image ends within the address space, a write into it is inside if and only if it
ends within the image: past the top of the address space it would begin below the image. -/
theorem inside_write {len : Nat} {base size vaddr n : UInt32} {bytes : List UInt8}
    (mapped : base.toNat + size.toNat ≤ 2 ^ 32) (some_bytes : n ≠ 0)
    (length : bytes.length = n.toNat) :
    Inside len base size (.write (base + vaddr) bytes) ↔
      vaddr.toNat + n.toNat ≤ size.toNat := by
  have positive : 0 < n.toNat :=
    Nat.pos_of_ne_zero fun zero => some_bytes (UInt32.toNat_inj.mp zero)
  have low := base.toNat_lt
  have below := vaddr.toNat_lt
  simp only [Inside, Span.Within, length, UInt32.toNat_add]
  omega

theorem keeps_memcpy_bind {α : Type} {law : Access → Prop} (img : Image) (address p n : UInt32)
    (f : Unit → Load α) :
    (memcpy img address p n >>= f).Keeps law ↔
      law (.read p n.toNat) ∧ law (.write address (slice img p n.toNat)) ∧ (f ()).Keeps law := by
  rw [keeps_bind, memcpy, keeps_find_bind, keeps_find, and_assoc]
  have only : (∀ a, (memcpy img address p n).outcome = .ok a → (f a).Keeps law) ↔
      (f ()).Keeps law := ⟨fun later => later () rfl, fun kept _ _ => kept⟩
  exact and_congr_right fun _ => and_congr_right fun _ => only

/-! ## The sections -/

variable {img : Image} {len : Nat} {base size : UInt32}

/-- The three fields before the test lie in the file with the front of the header. -/
theorem front_inside {sec : UInt32} (low : sec.toNat + 40 < 2 ^ 32) :
    (Inside len base size (.read (sec + 12) 4) ∧ Inside len base size (.read (sec + 16) 4) ∧
      Inside len base size (.read (sec + 20) 4)) ↔ sec.toNat + 24 ≤ len := by
  simp only [inside_read, UInt32.toNat_add, UInt32.reduceToNat]
  omega

theorem copy_inside (img : Image) (mapped : base.toNat + size.toNat ≤ 2 ^ 32) {sec : UInt32}
    (low : sec.toNat + 40 < 2 ^ 32) {vaddr rsize roff : UInt32} (some_bytes : rsize ≠ 0) :
    (Inside len base size (.read roff rsize.toNat) ∧
      Inside len base size (.write (base + vaddr) (slice img roff rsize.toNat)) ∧
      Inside len base size (.read (sec + 36) 4)) ↔
      roff.toNat + rsize.toNat ≤ len ∧ vaddr.toNat + rsize.toNat ≤ size.toNat ∧
        sec.toNat + 40 ≤ len := by
  have flags : (sec + 36).toNat = sec.toNat + 36 := by
    simp only [UInt32.toNat_add, UInt32.reduceToNat]
    omega
  rw [inside_read, inside_read, inside_write mapped some_bytes (length_slice _ _ _), flags]

/-- The sections stay inside if and only if every one of them fits. -/
theorem keeps_sections (mapped : base.toNat + size.toNat ≤ 2 ^ 32) (n : Nat) {sec : UInt32}
    (low : sec.toNat + 40 * n < 2 ^ 32) (code : Option (UInt32 × UInt32)) :
    (copy_sections img (UInt32.ofNat len) base n sec code).Keeps (Inside len base size) ↔
      ∀ i < n, SectionFits img len size (sec + 40 * UInt32.ofNat i) := by
  induction n generalizing sec code with
  | zero => exact iff_of_true (keeps_pure code) fun i below => absurd below (Nat.not_lt_zero i)
  | succ n ih =>
    have here : sec.toNat + 40 < 2 ^ 32 := by omega
    have next : (sec + 40).toNat + 40 * n < 2 ^ 32 := by
      simp only [UInt32.toNat_add, UInt32.reduceToNat]
      omega
    have first : sec + 40 * UInt32.ofNat 0 = sec := by simp
    have shift : ∀ i, sec + 40 * UInt32.ofNat (i + 1) = sec + 40 + 40 * UInt32.ofNat i := by
      intro i
      rw [UInt32.ofNat_add, UInt32.mul_add, UInt32.add_comm (40 * _), ← UInt32.add_assoc]
      rfl
    rw [Nat.forall_lt_succ_left, first]
    simp only [shift]
    rw [copy_sections, rd32le, keeps_find_bind, rd32le, keeps_find_bind, rd32le, keeps_find_bind,
      ← and_assoc, ← and_assoc, and_assoc (a := Inside len base size (.read (sec + 12) 4)),
      front_inside here]
    by_cases skipped : dword img (sec + 16) = 0 ∨
        dword img (sec + 20) + dword img (sec + 16) > UInt32.ofNat len
    · have fits : SectionFits img len size sec ↔ sec.toNat + 24 ≤ len :=
        and_iff_left fun copied => absurd skipped copied
      rw [if_pos skipped, ih next, fits]
    · have fits : SectionFits img len size sec ↔ _ := and_congr_right fun _ =>
        (forall_prop_of_true (show Copied img len sec from skipped)).trans
          (copy_inside img mapped here fun none => skipped (Or.inl none)).symm
      rw [if_neg skipped, keeps_memcpy_bind, rd32le, keeps_find_bind, ih next, fits]
      simp only [and_assoc]

/-! ## The headers -/

theorem word_lt (img : Image) (p : UInt32) : (word img p).toNat < 0x10000 := by
  have low := (img p).toNat_lt
  have high := (img (p + 1)).toNat_lt
  simp only [word, leWord, UInt32.toNat_ofNat', UInt8.reduceToNat]
  omega

theorem toNat_len (short : len < 2 ^ 31) : (UInt32.ofNat len).toNat = len := by
  rw [UInt32.toNat_ofNat']
  omega

theorem toNat_smaller (short : len < 2 ^ 31) (n : UInt32) :
    (if n < UInt32.ofNat len then n else UInt32.ofNat len).toNat = min n.toNat len := by
  by_cases less : n < UInt32.ofNat len
  · have below := UInt32.lt_iff_toNat_lt.mp less
    rw [toNat_len short] at below
    rw [if_pos less, Nat.min_eq_left (Nat.le_of_lt below)]
  · have above := Nat.not_lt.mp (mt UInt32.lt_iff_toNat_lt.mpr less)
    rw [toNat_len short] at above
    rw [if_neg less, toNat_len short, Nat.min_eq_right above]

theorem keeps_copy_image (img : Image) (short : len < 2 ^ 31)
    (mapped : base.toNat + size.toNat ≤ 2 ^ 32) (hdr_size : UInt32) {n : Nat} {sec : UInt32}
    (low : sec.toNat + 40 * n < 2 ^ 32) :
    (copy_image img (UInt32.ofNat len) base size hdr_size n sec).Keeps (Inside len base size) ↔
      min hdr_size.toNat len ≤ size.toNat ∧
        ∀ i < n, SectionFits img len size (sec + 40 * UInt32.ofNat i) := by
  have cleared : Inside len base size (.write base (List.replicate size.toNat 0)) := by
    simp [Inside, Span.Within]
  have front : ∀ m ≤ len, Inside len base size (.read 0 m) := by
    intro m most
    rw [inside_read, UInt32.toNat_zero, Nat.zero_add]
    exact most
  have headers : ∀ m : Nat, Inside len base size (.write base (slice img 0 m)) ↔
      m ≤ size.toNat := by
    intro m
    simp [Inside, Span.Within]
  rw [copy_image, memset, keeps_find_bind, keeps_memcpy_bind, check_image, keeps_find_bind,
    keeps_sections mapped n low, headers, toNat_smaller short, toNat_len short]
  constructor
  · rintro ⟨-, -, fits, -, sections⟩
    exact ⟨fits, sections⟩
  · rintro ⟨fits, sections⟩
    exact ⟨cleared, front _ (Nat.min_le_right _ _), fits, front _ (Nat.le_refl _), sections⟩

/-- The test of `e_lfanew`, were it right, has the front of the headers inside. -/
theorem header_inside (short : len < 2 ^ 31) (whole : (peOf img).toNat + 0x78 ≤ len) (k n : Nat)
    (fits : k + n ≤ 0x78) : Inside len base size (.read (peOf img + UInt32.ofNat k) n) := by
  rw [inside_read, UInt32.toNat_add, UInt32.toNat_ofNat']
  omega

theorem section_table_low (short : len < 2 ^ 31) (whole : (peOf img).toNat + 0x78 ≤ len) :
    (peOf img + 24 + word img (peOf img + 20)).toNat + 40 * nsections img < 2 ^ 32 := by
  have sections := word_lt img (peOf img + 6)
  have opt_size := word_lt img (peOf img + 20)
  simp only [nsections, UInt32.toNat_add, UInt32.reduceToNat]
  omega

/-- Up to the section table every read is inside once the test of `e_lfanew` is right. -/
theorem keeps_load_image (host : Host) (short : len < 2 ^ 31)
    (whole : (peOf img).toNat + 0x78 ≤ len)
    (mapped : host.reserve (imageBase img) (imageSize img) = true →
      (imageBase img).toNat + (imageSize img).toNat ≤ 2 ^ 32) :
    (load_image host img (UInt32.ofNat len) (peOf img)).Keeps
        (Inside len (imageBase img) (imageSize img)) ↔
      (Mapped host img → HeadersFit img len ∧
        ∀ i < nsections img, SectionFits img len (imageSize img) (sectionHeader img i)) := by
  have field : ∀ k n : Nat, k + n ≤ 0x78 →
      Inside len (imageBase img) (imageSize img) (.read (peOf img + UInt32.ofNat k) n) :=
    header_inside short whole
  have inOpt : ∀ k n : Nat, 24 + k + n ≤ 0x78 →
      Inside len (imageBase img) (imageSize img) (.read (peOf img + 24 + UInt32.ofNat k) n) := by
    intro k n fits
    rw [UInt32.add_assoc]
    exact UInt32.ofNat_add 24 k ▸ field (24 + k) n fits
  have signed : Inside len (imageBase img) (imageSize img) (.read (peOf img) signature.length) :=
    (inside_read _ _).mpr (Nat.le_trans (Nat.add_le_add_left (by decide) _) whole)
  have copied : host.reserve (imageBase img) (imageSize img) = true → _ :=
    fun reserved => keeps_copy_image img short (mapped reserved) (headerSize img)
      (section_table_low short whole)
  rw [load_image, memcmp, keeps_find_bind, keeps_refuseIf_bind, rd16le, keeps_find_bind,
    keeps_refuseIf_bind, rd16le, keeps_find_bind, rd16le, keeps_find_bind]
  simp only [rd32le, keeps_find_bind, keeps_refuseIf_bind, keeps_bind (copy_image _ _ _ _ _ _ _),
    keeps_pure, implies_true, and_true]
  constructor
  · rintro ⟨-, kept⟩ ⟨same, machine, reserved⟩
    obtain ⟨-, kept⟩ := kept fun differs => bne_iff_ne.mp differs same
    obtain ⟨-, -, -, -, -, -, kept⟩ := kept (not_not_intro machine)
    exact (copied reserved).mp (kept (ne_false_of_eq_true reserved))
  · intro fits
    refine ⟨signed, fun same => ⟨field 4 2 (by decide), fun machine => ⟨field 6 2 (by decide),
      field 20 2 (by decide), inOpt 28 4 (by decide), inOpt 16 4 (by decide),
      inOpt 56 4 (by decide), inOpt 60 4 (by decide), fun reserved => ?_⟩⟩⟩
    have reserved' := eq_true_of_ne_false reserved
    have equal := Decidable.not_not.mp fun differs => same (bne_iff_ne.mpr differs)
    exact (copied reserved').mpr (fits ⟨equal, Decidable.not_not.mp machine, reserved'⟩)

/-! ## The whole load -/

/-- A file that passes the wrapped test without passing the exact one has its signature read
past the file. -/
theorem signature_outside (host : Host) (short : len < 2 ^ 31)
    (test : peOf img + 0x78 ≤ UInt32.ofNat len) (past : len < (peOf img).toNat + 0x78) :
    ¬(load_image host img (UInt32.ofNat len) (peOf img)).Keeps (Inside len base size) := by
  rw [load_image, memcmp, keeps_find_bind, inside_read]
  rintro ⟨inside, -⟩
  have wrapped := UInt32.le_iff_toNat_le.mp test
  simp only [UInt32.toNat_add, UInt32.reduceToNat, toNat_len short] at wrapped
  omega

theorem short_of_ftell {file : List UInt8} (positive : 0 < ftell file) : file.length < 2 ^ 31 := by
  by_contra long
  rw [ftell, if_neg long] at positive
  exact absurd positive (by decide)

/-- The tests in order, and no access outside before the last of them. -/
theorem keeps_guest_load (host : Host) (file : List UInt8) :
    (guest_load host file).Keeps (Inside file.length base size) ↔
      (LooksLikePE host file →
        (load_image host (host.image file) (UInt32.ofNat file.length)
          (peOf (host.image file))).Keeps (Inside file.length base size)) := by
  rw [guest_load, keeps_refuseIf_bind, keeps_refuseIf_bind]
  simp only [rd8, rd32le, keeps_find_bind, keeps_refuseIf_bind]
  constructor
  · rintro kept ⟨opened, ⟨room, positive, read⟩, long, m, z, test⟩
    have whole : ¬(host.malloc = false ∨ ftell file ≤ 0 ∨ host.fread = false) := by
      rintro (none | none | none)
      · exact absurd room (Bool.eq_false_iff.mp none)
      · exact Int.not_le.mpr positive none
      · exact absurd read (Bool.eq_false_iff.mp none)
    obtain ⟨-, kept⟩ := kept (ne_false_of_eq_true opened) whole (UInt32.not_lt.mpr long)
    obtain ⟨-, kept⟩ := kept (not_not_intro m)
    obtain ⟨-, kept⟩ := kept (not_not_intro z)
    exact kept (UInt32.not_lt.mpr test)
  · intro kept opened whole long
    simp only [not_or, Int.not_le] at whole
    obtain ⟨room, positive, read⟩ := whole
    have exact := toNat_len (short_of_ftell positive)
    have enough := UInt32.le_iff_toNat_le.mp (UInt32.not_lt.mp long)
    rw [exact] at enough
    have early : ∀ (p : UInt32) (n : Nat), p.toNat + n ≤ 0x40 →
        Inside file.length base size (.read p n) :=
      fun p n fits => (inside_read p n).mpr (Nat.le_trans fits enough)
    refine ⟨early 0 1 (by decide), fun m => ⟨early 1 1 (by decide), fun z =>
      ⟨early 0x3C 4 (by decide), fun test => kept ?_⟩⟩⟩
    exact ⟨eq_true_of_ne_false opened,
      ⟨eq_true_of_ne_false room, positive, eq_true_of_ne_false read⟩, UInt32.not_lt.mp long,
      Decidable.not_not.mp m, Decidable.not_not.mp z, UInt32.not_lt.mp test⟩

/-- Every read of the file and every write to the guest is inside, whatever the process has
beside the buffer, if and only if the file fits. -/
theorem accesses_inside_iff (host : Host) (file : List UInt8)
    (mapped : ∀ base size, host.reserve base size = true → base.toNat + size.toNat ≤ 2 ^ 32) :
    (guest_load host file).Keeps
        (Inside file.length (imageBase (host.image file)) (imageSize (host.image file))) ↔
      Fits host file := by
  rw [keeps_guest_load]
  refine forall_congr' fun looks => ?_
  have short := short_of_ftell looks.2.1.2.1
  by_cases whole : (peOf (host.image file)).toNat + 0x78 ≤ file.length
  · exact (keeps_load_image host short whole (mapped _ _)).trans (and_iff_right whole).symm
  · exact iff_of_false (signature_outside host short looks.2.2.2.2.2 (Nat.not_le.mp whole))
      fun fits => whole fits.1

/-! ## Files -/

/-- A file of `n` bytes, all 0 but what is stored. -/
def fileOf (n : Nat) (fields : List (Nat × List UInt8)) : List UInt8 :=
  load (storeAll (fun _ => 0) fields) ⟨0, n⟩

def granting : Host where
  fopen := true
  malloc := true
  fread := true
  reserve base size := decide (base.toNat + size.toNat ≤ 2 ^ 32)
  around _ := 0

/-- One section of 16 bytes, which is the end of the file. -/
def oneSection : List UInt8 :=
  fileOf 0xF0 [(0, [0x4D, 0x5A]), (0x3C, leBytes 0x40), (0x40, signature), (0x44, [0x4C, 1]),
    (0x46, [1, 0]), (0x54, [0x60, 0]), (0x68, leBytes 0x1000), (0x74, leBytes 0x400000),
    (0x90, leBytes 0x2000), (0x94, leBytes 0xE0), (0xC4, leBytes 0x1000), (0xC8, leBytes 0x10),
    (0xCC, leBytes 0xE0), (0xDC, leBytes 0x60000020)]

theorem one_section_inside :
    (guest_load granting oneSection).Keeps
      (Inside oneSection.length (imageBase (granting.image oneSection))
        (imageSize (granting.image oneSection))) :=
  (accesses_inside_iff granting oneSection fun _ _ reserved => of_decide_eq_true reserved).mpr
    (by decide +kernel)

/-- 64 bytes, with an `e_lfanew` to which the loader adds 0x78 and gets 0. -/
def wrapping : List UInt8 := fileOf 0x40 [(0, [0x4D, 0x5A]), (0x3C, leBytes 0xFFFFFF88)]

/-- The signature is looked for 0x78 bytes before the buffer. -/
theorem wrapping_read_outside :
    (∀ base size, granting.reserve base size = true → base.toNat + size.toNat ≤ 2 ^ 32) ∧
      ¬(guest_load granting wrapping).Keeps
        (Inside wrapping.length (imageBase (granting.image wrapping))
          (imageSize (granting.image wrapping))) :=
  ⟨fun _ _ reserved => of_decide_eq_true reserved, by decide +kernel⟩

end Es3Recomp.Guarantees.GuestLoad
