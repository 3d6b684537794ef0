import Mathlib.Logic.Function.Defs
import Mathlib.Data.UInt

/-!
# Hashes that mix in a byte and multiply

One turn takes the exclusive or with a byte and multiplies by a constant, modulo 2^64. Where
the constant has an inverse a turn loses nothing: it can be undone for a known byte, and from
equal hashes before it the byte can be told from the hash after it. So inputs of one length
that differ in a single byte have different hashes (`hash_one_byte`).
-/
namespace Es3Recomp.Library.XorHash

def mix (prime h : UInt64) (b : UInt8) : UInt64 := (h ^^^ b.toUInt64) * prime

def hash (prime h : UInt64) (bytes : List UInt8) : UInt64 := bytes.foldl (mix prime) h

variable {prime inverse : UInt64}

theorem hash_append (prime h : UInt64) (front back : List UInt8) :
    hash prime h (front ++ back) = hash prime (hash prime h front) back := List.foldl_append

/-- Multiplication by the inverse undoes a turn. -/
theorem mix_cancel (invertible : prime * inverse = 1) (h : UInt64) (b : UInt8) :
    mix prime h b * inverse = h ^^^ b.toUInt64 := by
  rw [mix, UInt64.mul_assoc, invertible, UInt64.mul_one]

theorem mix_injective (invertible : prime * inverse = 1) {h h' : UInt64} {b : UInt8}
    (same : mix prime h b = mix prime h' b) : h = h' := by
  have mixed : h ^^^ b.toUInt64 = h' ^^^ b.toUInt64 := by
    rw [← mix_cancel invertible, ← mix_cancel invertible, same]
  exact (UInt64.xor_left_inj _).mp mixed

theorem mix_byte (invertible : prime * inverse = 1) {h : UInt64} {a b : UInt8}
    (same : mix prime h a = mix prime h b) : a = b := by
  have mixed : h ^^^ a.toUInt64 = h ^^^ b.toUInt64 := by
    rw [← mix_cancel invertible, ← mix_cancel invertible, same]
  exact UInt8.toUInt64_inj.mp ((UInt64.xor_right_inj _).mp mixed)

theorem hash_injective (invertible : prime * inverse = 1) {h h' : UInt64} {bytes : List UInt8}
    (same : hash prime h bytes = hash prime h' bytes) : h = h' := by
  induction bytes generalizing h h' with
  | nil => exact same
  | cons b bytes ih => exact mix_injective invertible (ih same)

theorem hash_one_byte (invertible : prime * inverse = 1) {h : UInt64} {front back : List UInt8}
    {a b : UInt8} (same : hash prime h (front ++ a :: back) = hash prime h (front ++ b :: back)) :
    a = b := by
  rw [hash_append, hash_append] at same
  exact mix_byte invertible (hash_injective invertible same)

end Es3Recomp.Library.XorHash
