import Es3Recomp.Source.Fingerprint

/-!
# The two fingerprints

The driver computes the fingerprint with Python's integers and in blocks
(src/tools/recomp/driver.py:409-435), the runtime with 64-bit words and over the whole buffer
(src/src/runtime/guest.c:611-617). The header carries the one to the other.
-/
namespace Es3Recomp.Guarantees.Fingerprint
open Library Source.Fingerprint

def FNV_PRIME : UInt64 := 0x100000001B3

/-- Its inverse modulo 2^64. -/
def FNV_INVERSE : UInt64 := 0xCE965057AFF6957B

theorem prime_inverse : FNV_PRIME * FNV_INVERSE = 1 := by decide

theorem fileFingerprint_hash (file : List UInt8) :
    fileFingerprint file = XorHash.hash FNV_PRIME 0xCBF29CE484222325 file := rfl

/-! ## One function -/

/-- Masking is what the wrap-around does. -/
theorem pythonTurn_mix (h : UInt64) (b : UInt8) :
    pythonTurn h.toNat b = (XorHash.mix FNV_PRIME h b).toNat := by
  have mask : ∀ n, n &&& 0xFFFFFFFFFFFFFFFF = n % 2 ^ 64 := fun n =>
    Nat.and_two_pow_sub_one_eq_mod n 64
  rw [pythonTurn, XorHash.mix, mask, UInt64.toNat_mul, UInt64.toNat_xor, UInt8.toNat_toUInt64]
  rfl

theorem foldl_pythonTurn (h : UInt64) (chunk : List UInt8) :
    chunk.foldl pythonTurn h.toNat = (XorHash.hash FNV_PRIME h chunk).toNat := by
  induction chunk generalizing h with
  | nil => rfl
  | cons b chunk ih =>
    rw [List.foldl_cons, pythonTurn_mix, ih]
    rfl

theorem fingerprintLoop_hash (h : UInt64) (chunks : List (List UInt8))
    (some : ∀ chunk ∈ chunks, chunk ≠ []) :
    fingerprintLoop h.toNat chunks = (XorHash.hash FNV_PRIME h chunks.flatten).toNat := by
  induction chunks generalizing h with
  | nil => rfl
  | cons chunk chunks ih =>
    obtain ⟨here, later⟩ := List.forall_mem_cons.mp some
    rw [fingerprintLoop, if_neg here, foldl_pythonTurn, ih _ later, List.flatten_cons,
      XorHash.hash_append]

/-- However the file is read, the driver's number is the runtime's. -/
theorem imageFingerprint_eq {file : List UInt8} {chunks : List (List UInt8)}
    (read : ReadAs file chunks) : imageFingerprint chunks = (fileFingerprint file).toNat := by
  rw [← read.whole, fileFingerprint_hash, ← fingerprintLoop_hash _ _ read.some]
  rfl

/-! ## One byte -/

/-- Files of one length that differ in one place and nowhere else. -/
def OneByteApart (file other : List UInt8) : Prop :=
  file.length = other.length ∧
    ∃ i : Nat, file[i]? ≠ other[i]? ∧ ∀ j : Nat, j ≠ i → file[j]? = other[j]?

theorem OneByteApart.split {file other : List UInt8} (apart : OneByteApart file other) :
    ∃ front a b back, file = front ++ a :: back ∧ other = front ++ b :: back ∧ a ≠ b := by
  obtain ⟨length, i, differ, same⟩ := apart
  have inside : i < file.length := by
    by_contra outside
    apply differ
    rw [List.getElem?_eq_none (Nat.not_lt.mp outside),
      List.getElem?_eq_none (length ▸ Nat.not_lt.mp outside)]
  have inside' : i < other.length := length ▸ inside
  have front : file.take i = other.take i := by
    apply List.ext_getElem?
    intro j
    rw [List.getElem?_take, List.getElem?_take]
    split
    next before => exact same j (Nat.ne_of_lt before)
    next => rfl
  have back : file.drop (i + 1) = other.drop (i + 1) := by
    apply List.ext_getElem?
    intro j
    rw [List.getElem?_drop, List.getElem?_drop, same (i + 1 + j) (by omega)]
  refine ⟨file.take i, file[i], other[i], file.drop (i + 1), ?_, ?_, ?_⟩
  · rw [List.cons_getElem_drop_succ, List.take_append_drop]
  · rw [front, back, List.cons_getElem_drop_succ, List.take_append_drop]
  · intro equal
    apply differ
    rw [List.getElem?_eq_getElem inside, List.getElem?_eq_getElem inside', equal]

theorem fileFingerprint_ne {file other : List UInt8} (apart : OneByteApart file other) :
    fileFingerprint file ≠ fileFingerprint other := by
  obtain ⟨front, a, b, back, rfl, rfl, differ⟩ := apart.split
  intro same
  exact differ (XorHash.hash_one_byte prime_inverse same)

/-! ## The check -/

theorem checkImage_silent_iff {lifted : List UInt8} {chunks : List (List UInt8)}
    (read : ReadAs lifted chunks) (name path : List Char) (loaded : List UInt8) :
    checkImage (some (emitImage name lifted chunks)) path loaded = none ↔
      fileFingerprint loaded = fileFingerprint lifted ∧
        UInt32.ofNat loaded.length = UInt32.ofNat lifted.length := by
  have hash : UInt64.ofNat (emitImage name lifted chunks).hash = fileFingerprint lifted := by
    rw [emitImage, imageFingerprint_eq read, UInt64.ofNat_toNat]
  have size : (emitImage name lifted chunks).size = lifted.length := rfl
  unfold checkImage
  dsimp only
  rw [hash, size]
  constructor
  · intro silent
    by_contra other
    rw [if_neg other] at silent
    cases silent
  · exact fun same => if_pos same

/-- Both compute one function, whatever the blocks are; the runtime says nothing about the
file itself, and warns of one that differs in one byte. -/
theorem fingerprints_one_function :
    (∀ file chunks, ReadAs file chunks →
      imageFingerprint chunks = (fileFingerprint file).toNat) ∧
    (∀ lifted chunks, ReadAs lifted chunks → ∀ name path,
      checkImage (some (emitImage name lifted chunks)) path lifted = none) ∧
    (∀ file other, OneByteApart file other → fileFingerprint file ≠ fileFingerprint other) ∧
    ∀ lifted chunks, ReadAs lifted chunks → ∀ loaded, OneByteApart lifted loaded → ∀ name path,
      checkImage (some (emitImage name lifted chunks)) path loaded ≠ none := by
  refine ⟨fun _ _ => imageFingerprint_eq, ?_, fun _ _ => fileFingerprint_ne, ?_⟩
  · intro lifted chunks read name path
    exact (checkImage_silent_iff read name path lifted).mpr ⟨rfl, rfl⟩
  · intro lifted chunks read loaded apart name path silent
    have same := ((checkImage_silent_iff read name path loaded).mp silent).1
    exact fileFingerprint_ne apart same.symm

/-- Three bytes, read in two blocks, and a file with another one in the middle. -/
theorem two_blocks_one_function :
    imageFingerprint [[1, 2], [3]] = (fileFingerprint [1, 2, 3]).toNat ∧
      checkImage (some (emitImage "game.exe".toList [1, 2, 3] [[1, 2], [3]])) "C:/game.exe".toList
        [1, 2, 3] = none ∧
      fileFingerprint [1, 2, 3] ≠ fileFingerprint [1, 9, 3] ∧
      checkImage (some (emitImage "game.exe".toList [1, 2, 3] [[1, 2], [3]])) "C:/game.exe".toList
        [1, 9, 3] ≠ none := by
  have read : ReadAs [1, 2, 3] [[1, 2], [3]] := ⟨rfl, by decide⟩
  have apart : OneByteApart [1, 2, 3] [1, 9, 3] := by
    refine ⟨rfl, 1, by decide, fun j other => ?_⟩
    rcases j with _ | _ | j
    · rfl
    · exact absurd rfl other
    · rfl
  obtain ⟨one, silent, differ, warned⟩ := fingerprints_one_function
  exact ⟨one _ _ read, silent _ _ read _ _, differ _ _ apart, warned _ _ read _ apart _ _⟩

end Es3Recomp.Guarantees.Fingerprint
