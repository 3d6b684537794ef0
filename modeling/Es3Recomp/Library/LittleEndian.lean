/-!
# 32-bit words as bytes, least significant first

`dump` is how a little-endian machine lays words out in memory, `unpack` reads
them back and ignores a remainder that is shorter than a word.
-/
namespace Es3Recomp.Library

def leBytes (w : UInt32) : List UInt8 :=
  [UInt8.ofNat w.toNat, UInt8.ofNat (w.toNat / 0x100), UInt8.ofNat (w.toNat / 0x10000),
    UInt8.ofNat (w.toNat / 0x1000000)]

def leWord (a b c d : UInt8) : UInt32 :=
  UInt32.ofNat (a.toNat + 0x100 * b.toNat + 0x10000 * c.toNat + 0x1000000 * d.toNat)

def dump (ws : List UInt32) : List UInt8 := ws.flatMap leBytes

def unpack : List UInt8 → List UInt32
  | a :: b :: c :: d :: rest => leWord a b c d :: unpack rest
  | _ => []

theorem leWord_leBytes (w : UInt32) :
    leWord (UInt8.ofNat w.toNat) (UInt8.ofNat (w.toNat / 0x100))
      (UInt8.ofNat (w.toNat / 0x10000)) (UInt8.ofNat (w.toNat / 0x1000000)) = w := by
  have bound := w.toNat_lt
  apply UInt32.toNat_inj.mp
  simp only [leWord, UInt32.toNat_ofNat', UInt8.toNat_ofNat']
  omega

theorem length_dump (ws : List UInt32) : (dump ws).length = 4 * ws.length := by
  induction ws with
  | nil => rfl
  | cons w ws ih =>
    rw [dump, List.flatMap_cons, ← dump, List.length_append, ih]
    simp only [leBytes, List.length_cons, List.length_nil]
    omega

theorem unpack_dump (ws : List UInt32) : unpack (dump ws) = ws := by
  induction ws with
  | nil => rfl
  | cons w ws ih =>
    have front : dump (w :: ws) = leBytes w ++ dump ws := rfl
    rw [front]
    simp only [leBytes, List.cons_append, List.nil_append, unpack, leWord_leBytes, ih]

end Es3Recomp.Library
