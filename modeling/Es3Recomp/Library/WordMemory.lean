import Mathlib.Algebra.Group.Nat.Defs
import Es3Recomp.Library.LittleEndian

/-!
# Memory with 32-bit addresses

Addresses wrap, and so does a range that goes past the top.
-/
namespace Es3Recomp.Library

abbrev Memory32 := UInt32 → UInt8

def word (mem : Memory32) (p : UInt32) : UInt32 := leWord (mem p) (mem (p + 1)) 0 0

def dword (mem : Memory32) (p : UInt32) : UInt32 :=
  leWord (mem p) (mem (p + 1)) (mem (p + 2)) (mem (p + 3))

def write (mem : Memory32) (p : UInt32) (bytes : List UInt8) : Memory32 :=
  fun a => bytes.getD (a - p).toNat (mem a)

theorem dword_write (mem : Memory32) (p w : UInt32) : dword (write mem p (leBytes w)) p = w := by
  have at_ : ∀ k : UInt32, (p + k - p).toNat = k.toNat := by
    intro k
    rw [UInt32.add_comm, UInt32.add_sub_cancel]
  have first : (p - p).toNat = 0 := by rw [UInt32.sub_self, UInt32.toNat_zero]
  simp only [dword, write, at_, first, leBytes]
  exact leWord_leBytes w

theorem write_outside (mem : Memory32) {p a : UInt32} {bytes : List UInt8}
    (outside : bytes.length ≤ (a - p).toNat) : write mem p bytes a = mem a := by
  rw [write, List.getD_eq_getElem?_getD, List.getElem?_eq_none outside, Option.getD_none]

/-- Words that lie apart, also across the top. -/
theorem dword_write_apart (mem : Memory32) (w : UInt32) {p q : UInt32} (before : 4 ≤ (p - q).toNat)
    (behind : 4 ≤ (q - p).toNat) : dword (write mem p (leBytes w)) q = dword mem q := by
  have round : (p - q).toNat + (q - p).toNat = 2 ^ 32 := by
    rw [UInt32.toNat_sub] at before behind ⊢
    rw [UInt32.toNat_sub]
    have := p.toNat_lt
    have := q.toNat_lt
    omega
  have outside : ∀ k : UInt32, k.toNat < 4 → write mem p (leBytes w) (q + k) = mem (q + k) := by
    intro k inside
    refine write_outside mem ?_
    have far : q + k - p = (q - p) + k := by
      rw [UInt32.sub_eq_add_neg, UInt32.sub_eq_add_neg]
      ac_rfl
    rw [far, UInt32.toNat_add]
    change 4 ≤ _
    omega
  have first := outside 0 (by decide)
  rw [UInt32.add_zero] at first
  simp only [dword, first, outside 1 (by decide), outside 2 (by decide), outside 3 (by decide)]

/-- Words at different places behind one address. -/
theorem dword_write_offset (mem : Memory32) (p w : UInt32) {i j : UInt32}
    (apart : i.toNat + 4 ≤ j.toNat ∨ j.toNat + 4 ≤ i.toNat) (near : i.toNat < 2 ^ 31)
    (near' : j.toNat < 2 ^ 31) : dword (write mem (p + i) (leBytes w)) (p + j) = dword mem (p + j) := by
  have cancel : ∀ a b : UInt32, p + a - (p + b) = a - b := by
    intro a b
    apply UInt32.toNat_inj.mp
    have := a.toNat_lt
    have := b.toNat_lt
    simp only [UInt32.toNat_sub, UInt32.toNat_add]
    omega
  refine dword_write_apart mem w ?_ ?_
  all_goals
    rw [cancel, UInt32.toNat_sub]
    omega

end Es3Recomp.Library
