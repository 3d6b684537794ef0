import Mathlib.Algebra.Group.Nat.Defs
import Mathlib.Data.Int.Basic

/-!
# Numbers kept in a signed word of 32 bits

Below 2^31 such a word is the number itself: equal words are equal numbers, comparisons are
comparisons of numbers, and none is negative.
-/
namespace Es3Recomp.Library

variable {k n : Nat}

theorem toInt_ofNat32 (small : k < 2 ^ 31) : (Int32.ofNat k).toInt = k :=
  Int32.toInt_ofNat_of_lt small

theorem ofNat32_inj (small : k < 2 ^ 31) (small' : n < 2 ^ 31)
    (same : Int32.ofNat k = Int32.ofNat n) : k = n := by
  have values := congrArg Int32.toInt same
  rw [toInt_ofNat32 small, toInt_ofNat32 small'] at values
  exact Int.ofNat.inj values

theorem ofNat32_le_iff (small : k < 2 ^ 31) (small' : n < 2 ^ 31) :
    Int32.ofNat k ≤ Int32.ofNat n ↔ k ≤ n := by
  rw [Int32.le_iff_toInt_le, toInt_ofNat32 small, toInt_ofNat32 small']
  exact Int.ofNat_le

theorem ofNat32_lt_iff (small : k < 2 ^ 31) (small' : n < 2 ^ 31) :
    Int32.ofNat k < Int32.ofNat n ↔ k < n := by
  rw [Int32.lt_iff_toInt_lt, toInt_ofNat32 small, toInt_ofNat32 small']
  exact Int.ofNat_lt

theorem ofNat32_not_neg (small : k < 2 ^ 31) : ¬ Int32.ofNat k < 0 := by
  rw [Int32.lt_iff_toInt_lt, toInt_ofNat32 small]
  exact Int.not_lt.mpr (Int.natCast_nonneg k)

theorem toNatClampNeg_ofNat32 (small : k < 2 ^ 31) : (Int32.ofNat k).toNatClampNeg = k := by
  rw [Int32.toNatClampNeg, toInt_ofNat32 small]
  rfl

end Es3Recomp.Library
