import Mathlib.Algebra.Group.Nat.Defs
import Es3Recomp.Library.ByteMemory

/-!
# 64-bit words in a byte memory, least significant byte first

`quad` reads the eight bytes from an address on, `setQuad` stores them. A store is read back
where it was made, and leaves alone whatever lies apart from it. `patchAll` changes one word
after another by a function; where the words lie apart, each is changed once. `setQuads` stores
several of them.
-/
namespace Es3Recomp.Library

def quadBytes (w : UInt64) : List UInt8 :=
  [UInt8.ofNat w.toNat, UInt8.ofNat (w.toNat / 0x100), UInt8.ofNat (w.toNat / 0x10000),
    UInt8.ofNat (w.toNat / 0x1000000), UInt8.ofNat (w.toNat / 0x100000000),
    UInt8.ofNat (w.toNat / 0x10000000000), UInt8.ofNat (w.toNat / 0x1000000000000),
    UInt8.ofNat (w.toNat / 0x100000000000000)]

def quadOf : List UInt8 → UInt64
  | [a, b, c, d, e, f, g, h] =>
    UInt64.ofNat (a.toNat + 0x100 * b.toNat + 0x10000 * c.toNat + 0x1000000 * d.toNat +
      0x100000000 * e.toNat + 0x10000000000 * f.toNat + 0x1000000000000 * g.toNat +
      0x100000000000000 * h.toNat)
  | _ => 0

/-- The range of the word at an address. -/
def quadSpan (p : Nat) : Span := ⟨p, 8⟩

def quad (mem : Memory) (p : Nat) : UInt64 := quadOf (load mem (quadSpan p))

def setQuad (mem : Memory) (p : Nat) (w : UInt64) : Memory := store mem p (quadBytes w)

theorem quadOf_quadBytes (w : UInt64) : quadOf (quadBytes w) = w := by
  have bound := w.toNat_lt
  apply UInt64.toNat_inj.mp
  simp only [quadBytes, quadOf, UInt64.toNat_ofNat', UInt8.toNat_ofNat']
  omega

@[simp] theorem quad_setQuad (mem : Memory) (p : Nat) (w : UInt64) :
    quad (setQuad mem p w) p = w := by
  rw [quad, setQuad, quadSpan, load_store_take _ _ _ _ (Nat.le_refl 8),
    List.take_of_length_le (Nat.le_refl 8), quadOf_quadBytes]

theorem quad_setQuad_apart {mem : Memory} {p q : Nat} (w : UInt64)
    (apart : (quadSpan p).Apart (quadSpan q)) : quad (setQuad mem p w) q = quad mem q := by
  have frame : load (setQuad mem p w) (quadSpan q) = load mem (quadSpan q) :=
    load_store_clear mem apart
  rw [quad, frame, quad]

/-- The same, with the ends written out. -/
theorem quad_setQuad_other {mem : Memory} {p q : Nat} (w : UInt64)
    (apart : p + 8 ≤ q ∨ q + 8 ≤ p) : quad (setQuad mem p w) q = quad mem q :=
  quad_setQuad_apart w apart

theorem setQuad_sameOutside (mem : Memory) (p : Nat) (w : UInt64) :
    SameOutside (quadSpan p) mem (setQuad mem p w) := store_sameOutside mem p (quadBytes w)

/-- A word that lies in a range that was left alone. -/
theorem quad_congr {mem mem' : Memory} {p : Nat}
    (same : ∀ a, (quadSpan p).Holds a → mem' a = mem a) : quad mem' p = quad mem p := by
  rw [quad, load_congr same, quad]

/-! ## Patches -/

def patch (f : UInt64 → UInt64) (mem : Memory) (p : Nat) : Memory := setQuad mem p (f (quad mem p))

def patchAll (f : UInt64 → UInt64) (mem : Memory) (places : List Nat) : Memory :=
  places.foldl (patch f) mem

theorem patchAll_append (f : UInt64 → UInt64) (mem : Memory) (places more : List Nat) :
    patchAll f mem (places ++ more) = patchAll f (patchAll f mem places) more := List.foldl_append

theorem patchAll_outside {f : UInt64 → UInt64} {mem : Memory} {places : List Nat} {a : Nat}
    (outside : ∀ p ∈ places, ¬(quadSpan p).Holds a) : patchAll f mem places a = mem a := by
  induction places generalizing mem with
  | nil => rfl
  | cons p places ih =>
    obtain ⟨here, later⟩ := List.forall_mem_cons.mp outside
    have rest : patchAll f (patch f mem p) places a = patch f mem p a := ih later
    exact rest.trans (setQuad_sameOutside mem p _ a here)

/-- Words apart from all that are patched read as before. -/
theorem quad_patchAll_apart {f : UInt64 → UInt64} {mem : Memory} {places : List Nat} {q : Nat}
    (apart : ∀ p ∈ places, (quadSpan p).Apart (quadSpan q)) :
    quad (patchAll f mem places) q = quad mem q := by
  apply quad_congr
  intro a here
  apply patchAll_outside
  intro p member there
  exact (apart p member).disjoint a there here

/-- Each of the words is changed once. -/
theorem quad_patchAll {f : UInt64 → UInt64} {mem : Memory} {places : List Nat}
    (apart : places.Pairwise fun p q => (quadSpan p).Apart (quadSpan q)) {p : Nat}
    (member : p ∈ places) : quad (patchAll f mem places) p = f (quad mem p) := by
  induction places generalizing mem with
  | nil => exact absurd member List.not_mem_nil
  | cons q places ih =>
    obtain ⟨first, rest⟩ := List.pairwise_cons.mp apart
    have cons : patchAll f mem (q :: places) = patchAll f (patch f mem q) places := rfl
    rw [cons]
    rcases List.mem_cons.mp member with rfl | later
    · rw [quad_patchAll_apart fun p' there => (first p' there).symm, patch, quad_setQuad]
    · rw [ih rest later, patch, quad_setQuad_apart _ (first p later)]

/-! ## Several words -/

def setQuads (mem : Memory) (ws : List (Nat × UInt64)) : Memory :=
  ws.foldl (fun mem w => setQuad mem w.1 w.2) mem

theorem setQuads_append (mem : Memory) (ws more : List (Nat × UInt64)) :
    setQuads mem (ws ++ more) = setQuads (setQuads mem ws) more := List.foldl_append

theorem setQuads_outside {mem : Memory} {ws : List (Nat × UInt64)} {a : Nat}
    (outside : ∀ w ∈ ws, ¬(quadSpan w.1).Holds a) : setQuads mem ws a = mem a := by
  induction ws generalizing mem with
  | nil => rfl
  | cons w ws ih =>
    obtain ⟨here, later⟩ := List.forall_mem_cons.mp outside
    have rest : setQuads (setQuad mem w.1 w.2) ws a = setQuad mem w.1 w.2 a := ih later
    exact rest.trans (setQuad_sameOutside mem w.1 w.2 a here)

theorem quad_setQuads_apart {mem : Memory} {ws : List (Nat × UInt64)} {q : Nat}
    (apart : ∀ w ∈ ws, (quadSpan w.1).Apart (quadSpan q)) :
    quad (setQuads mem ws) q = quad mem q := by
  apply quad_congr
  intro a here
  apply setQuads_outside
  intro w member there
  exact (apart w member).disjoint a there here

/-- Where they lie apart, each of them is there. -/
theorem quad_setQuads {mem : Memory} {ws : List (Nat × UInt64)}
    (apart : ws.Pairwise fun w v => (quadSpan w.1).Apart (quadSpan v.1)) {w : Nat × UInt64}
    (member : w ∈ ws) : quad (setQuads mem ws) w.1 = w.2 := by
  induction ws generalizing mem with
  | nil => exact absurd member List.not_mem_nil
  | cons v ws ih =>
    obtain ⟨first, rest⟩ := List.pairwise_cons.mp apart
    have cons : setQuads mem (v :: ws) = setQuads (setQuad mem v.1 v.2) ws := rfl
    rw [cons]
    rcases List.mem_cons.mp member with rfl | later
    · rw [quad_setQuads_apart fun v' there => (first v' there).symm, quad_setQuad]
    · exact ih rest later

end Es3Recomp.Library
