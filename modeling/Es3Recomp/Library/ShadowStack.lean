import Mathlib.Data.Int.Basic
import Mathlib.Logic.Function.Basic

/-!
# A stack kept in an array of fixed size

Slot `j` holds the entry that was pushed at depth `j`. Entries beyond the capacity are
counted and not kept, so what is below them is still there when they are gone, and the top
can be read back as long as it is not among them.
-/
namespace Es3Recomp.Library

variable {α : Type} {cap : Nat} {slot : ℤ → α} {xs : List α}

/-- The slots hold the stack `xs`, innermost entry first, as far as they go. -/
def Shadows (cap : Nat) (slot : ℤ → α) (xs : List α) : Prop :=
  ∀ j < cap, ∀ x, xs.reverse[j]? = some x → slot j = x

/-- The slots after a push at this depth. -/
def pushAt (cap : Nat) (slot : ℤ → α) (depth : ℤ) (x : α) : ℤ → α :=
  if depth < cap then Function.update slot depth x else slot

namespace Shadows

theorem empty (cap : Nat) (slot : ℤ → α) : Shadows cap slot [] :=
  fun _ _ _ found => absurd found nofun

theorem push (shadows : Shadows cap slot xs) (x : α) :
    Shadows cap (pushAt cap slot xs.length x) (x :: xs) := by
  intro j inside y found
  rw [List.reverse_cons] at found
  rcases Nat.lt_trichotomy j xs.length with below | here | above
  · rw [List.getElem?_append_left (by rwa [List.length_reverse])] at found
    have other : (j : ℤ) ≠ xs.length := by omega
    have kept : pushAt cap slot xs.length x j = slot j := by
      unfold pushAt
      split
      · exact Function.update_of_ne other ..
      · rfl
    rw [kept]
    exact shadows j inside y found
  · have same : y = x := by
      rw [here, ← List.length_reverse, List.getElem?_concat_length] at found
      exact (Option.some.inj found).symm
    rw [pushAt, if_pos (by omega), here, same, Function.update_self]
  · have none : (xs.reverse ++ [x])[j]? = none := by
      rw [List.getElem?_eq_none_iff, List.length_append, List.length_reverse]
      exact above
    rw [none] at found
    cases found

theorem pop {x : α} (shadows : Shadows cap slot (x :: xs)) : Shadows cap slot xs := by
  intro j inside y found
  have within : j < xs.reverse.length := (List.getElem?_eq_some_iff.mp found).1
  apply shadows j inside y
  rw [List.reverse_cons, List.getElem?_append_left within]
  exact found

/-- The entry `k` places below the top is read, if its slot is one of the array. -/
theorem peek (shadows : Shadows cap slot xs) {k : Nat} {x : α} (found : xs[k]? = some x)
    (room : xs.length ≤ cap + k) : slot (xs.length - 1 - k) = x := by
  obtain ⟨within, rfl⟩ := List.getElem?_eq_some_iff.mp found
  have place : ((xs.length - 1 - k : ℕ) : ℤ) = xs.length - 1 - k := by omega
  rw [← place]
  apply shadows _ (by omega)
  rw [List.getElem?_reverse (by omega)]
  have back : xs.length - 1 - (xs.length - 1 - k) = k := by omega
  rw [back]
  exact found

/-- With nothing beyond the array, the top entries are read back in order. -/
theorem recent (shadows : Shadows cap slot xs) (room : xs.length ≤ cap) {n : Nat}
    (enough : n ≤ xs.length) :
    (List.range n).map (fun i : Nat => slot (xs.length - 1 - i)) = xs.take n := by
  apply List.ext_getElem
  · rw [List.length_map, List.length_range, List.length_take, Nat.min_eq_left enough]
  · intro i inside inside'
    rw [List.length_map, List.length_range] at inside
    rw [List.getElem_map, List.getElem_range, List.getElem_take]
    exact shadows.peek (List.getElem?_eq_getElem (by omega)) (by omega)

end Shadows
end Es3Recomp.Library
