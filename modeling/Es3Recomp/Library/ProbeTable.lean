import Mathlib.Data.Finset.Card
import Mathlib.Data.Finset.Range

/-!
# Tables with open addressing

A key has a home in a table of `size` slots; it goes into the first slot from there on, around
the end, that is free or has it already, if one of the next `bound` slots is one. In a `Sound`
table whoever looks for a key that is there finds its slot, and a search that ends elsewhere says
that it is not there (`Sound.has_iff`). Putting a key into the free slot where the search for it
ends keeps the table sound (`Sound.put`).
-/
namespace Es3Recomp.Library.ProbeTable

variable {κ : Type} {free : κ} {size : Nat} {home : κ → Nat}

/-- The slot to try after `n` others. -/
def place (size : Nat) (home : κ → Nat) (key : κ) (n : Nat) : Nat := (home key + n) % size

/-- One slot with a key in it, the others as they are. -/
def put (slots : Nat → κ) (k : Nat) (key : κ) : Nat → κ :=
  fun j => if j = k then key else slots j

theorem put_self (slots : Nat → κ) (k : Nat) (key : κ) : put slots k key k = key := if_pos rfl

theorem put_other {slots : Nat → κ} {k j : Nat} (key : κ) (other : j ≠ k) :
    put slots k key j = slots j := if_neg other

/-- The key is in the table. -/
def Has (size : Nat) (slots : Nat → κ) (key : κ) : Prop := ∃ k, k < size ∧ slots k = key

theorem has_put {slots : Nat → κ} {k : Nat} {key new : κ} (inside : k < size)
    (was_free : slots k = free) (some_ : key ≠ free) :
    Has size (put slots k new) key ↔ Has size slots key ∨ key = new := by
  constructor
  · intro has
    obtain ⟨j, in_j, at_j⟩ := has
    by_cases same : j = k
    · rw [same, put_self] at at_j
      exact Or.inr at_j.symm
    · rw [put_other new same] at at_j
      exact Or.inl ⟨j, in_j, at_j⟩
  · intro either
    rcases either with has | same
    · obtain ⟨j, in_j, at_j⟩ := has
      have other : j ≠ k := fun here => some_ (by rw [← at_j, here, was_free])
      exact ⟨j, in_j, by rw [put_other new other, at_j]⟩
    · exact ⟨k, inside, by rw [put_self, same]⟩

/-- Every slot is tried. -/
theorem place_surjective (home : κ → Nat) (key : κ) {k : Nat} (inside : k < size) :
    ∃ m < size, place size home key m = k := by
  have below : home key % size < size := Nat.mod_lt _ (by omega)
  by_cases after : home key % size ≤ k
  · refine ⟨k - home key % size, by omega, ?_⟩
    have here : home key % size + (k - home key % size) = k := by omega
    rw [place, ← Nat.mod_add_mod, here, Nat.mod_eq_of_lt inside]
  · refine ⟨k + size - home key % size, by omega, ?_⟩
    have here : home key % size + (k + size - home key % size) = k + size := by omega
    rw [place, ← Nat.mod_add_mod, here, Nat.add_mod_right, Nat.mod_eq_of_lt inside]

variable [DecidableEq κ]

/-- The first of the next slots with the key or free, if there is one. -/
def search (free : κ) (size : Nat) (home : κ → Nat) (slots : Nat → κ) (key : κ) :
    Nat → Nat → Option Nat
  | 0, _ => none
  | left + 1, n =>
    if slots (place size home key n) = key ∨ slots (place size home key n) = free then
      some (place size home key n)
    else search free size home slots key left (n + 1)

/-- Every key in the table is found in its slot. -/
def Sound (free : κ) (size : Nat) (home : κ → Nat) (bound : Nat) (slots : Nat → κ) : Prop :=
  ∀ k, k < size → slots k ≠ free → search free size home slots (slots k) bound 0 = some k

section Search

variable {slots : Nat → κ} {key : κ}

/-- Where a search ends is one of the slots, with the key or free. -/
theorem search_some {left n k : Nat} (found : search free size home slots key left n = some k) :
    (∃ m, n ≤ m ∧ m < n + left ∧ k = place size home key m) ∧ (slots k = key ∨ slots k = free) := by
  induction left generalizing n with
  | zero => cases found
  | succ left ih =>
    rw [search] at found
    split at found
    · rename_i stop
      cases found
      exact ⟨⟨n, Nat.le_refl n, by omega, rfl⟩, stop⟩
    · obtain ⟨⟨m, after, inside, at_m⟩, stop⟩ := ih found
      exact ⟨⟨m, by omega, by omega, at_m⟩, stop⟩

theorem search_lt {left n k : Nat} (some_ : 0 < size)
    (found : search free size home slots key left n = some k) : k < size := by
  obtain ⟨⟨m, _, _, at_m⟩, _⟩ := search_some found
  rw [at_m]
  exact Nat.mod_lt _ some_

theorem search_none_iff (left n : Nat) :
    search free size home slots key left n = none ↔
      ∀ m, n ≤ m → m < n + left →
        slots (place size home key m) ≠ key ∧ slots (place size home key m) ≠ free := by
  induction left generalizing n with
  | zero => exact iff_of_true rfl fun m after inside => absurd inside (by omega)
  | succ left ih =>
    rw [search]
    split
    · rename_i stop
      refine iff_of_false (fun none => nomatch none) fun taken => ?_
      have here := taken n (Nat.le_refl n) (by omega)
      exact stop.elim here.1 here.2
    · rename_i on
      rw [ih (n + 1)]
      constructor
      · intro taken m after inside
        by_cases first : m = n
        · rw [first]
          exact not_or.mp on
        · exact taken m (by omega) (by omega)
      · exact fun taken m after inside => taken m (by omega) (by omega)

/-- A key that comes into a free slot changes no search but its own. -/
theorem search_put {left n k k' : Nat} {new : κ} (was_free : slots k = free)
    (found : search free size home slots key left n = some k') (own : k' = k → new = key) :
    search free size home (put slots k new) key left n = some k' := by
  induction left generalizing n with
  | zero => cases found
  | succ left ih =>
    rw [search] at found ⊢
    split at found
    · rename_i stop
      cases found
      by_cases same : place size home key n = k
      · rw [same, put_self, if_pos (Or.inl (own same))]
      · rw [put_other new same, if_pos stop]
    · rename_i on
      have same : place size home key n ≠ k := fun same => on (Or.inr (same ▸ was_free))
      rw [put_other new same, if_neg on]
      exact ih found

/-- A search through a whole table that ends nowhere has met every slot. -/
theorem full_of_none (none : search free size home slots key size 0 = none) {k : Nat}
    (inside : k < size) : slots k ≠ free := by
  obtain ⟨m, tried, at_m⟩ := place_surjective home key inside
  have taken := (search_none_iff size 0).mp none m (Nat.zero_le m) (by omega)
  rw [at_m] at taken
  exact taken.2

end Search

section Sound

variable {slots : Nat → κ} {key : κ} {bound : Nat}

theorem sound_empty : Sound free size home bound fun _ => free := fun _ _ taken => absurd rfl taken

/-- A key is in the table just when the search for it ends at it. -/
theorem Sound.has_iff (sound : Sound free size home bound slots) (some_ : key ≠ free) :
    Has size slots key ↔
      ∃ k, search free size home slots key bound 0 = some k ∧ k < size ∧ slots k = key := by
  constructor
  · intro has
    obtain ⟨k, inside, at_k⟩ := has
    have found := sound k inside (at_k ▸ some_)
    rw [at_k] at found
    exact ⟨k, found, inside, at_k⟩
  · intro ends
    obtain ⟨k, _, inside, at_k⟩ := ends
    exact ⟨k, inside, at_k⟩

theorem Sound.put (sound : Sound free size home bound slots) {k : Nat}
    (found : search free size home slots key bound 0 = some k) (was_free : slots k = free) :
    Sound free size home bound (put slots k key) := by
  intro j inside taken
  by_cases same : j = k
  · rw [same, put_self]
    exact search_put was_free found fun _ => rfl
  · rw [put_other key same] at taken ⊢
    exact search_put was_free (sound j inside taken) fun at_k => absurd at_k same

end Sound

/-! ## How many slots are taken -/

def taken (free : κ) (size : Nat) (slots : Nat → κ) : Nat :=
  ((Finset.range size).filter fun k => slots k ≠ free).card

theorem taken_put {slots : Nat → κ} {key : κ} {k : Nat} (inside : k < size)
    (was_free : slots k = free) (some_ : key ≠ free) :
    taken free size (put slots k key) = taken free size slots + 1 := by
  have more : ((Finset.range size).filter fun j => put slots k key j ≠ free) =
      insert k ((Finset.range size).filter fun j => slots j ≠ free) := by
    ext j
    by_cases same : j = k
    · simp [same, put_self, inside, some_]
    · simp [same, put_other key same]
  rw [taken, more, Finset.card_insert_of_notMem (by simp [was_free]), taken]

theorem taken_lt {slots : Nat → κ} {k : Nat} (inside : k < size) (is_free : slots k = free) :
    taken free size slots < size := by
  have part : ((Finset.range size).filter fun j => slots j ≠ free) ⊂ Finset.range size :=
    Finset.filter_ssubset.mpr ⟨k, Finset.mem_range.mpr inside, not_not.mpr is_free⟩
  have fewer := Finset.card_lt_card part
  rwa [Finset.card_range] at fewer

theorem taken_full {slots : Nat → κ} (full : ∀ k, k < size → slots k ≠ free) :
    taken free size slots = size := by
  rw [taken, Finset.filter_true_of_mem fun k inside => full k (Finset.mem_range.mp inside),
    Finset.card_range]

end Es3Recomp.Library.ProbeTable
