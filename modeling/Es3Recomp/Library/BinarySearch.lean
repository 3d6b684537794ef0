import Mathlib.Order.Basic
import Mathlib.Order.Lattice

/-!
# Binary search

The loop on a half-open window of a list that is sorted by a key. No key is there twice,
so an entry that is there is the one that is found.
-/
namespace Es3Recomp.Library.BinarySearch

variable {β κ : Type} [LinearOrder κ] (key : β → κ)

/-- `while (lo < hi)`, for at most as many turns as the window is wide. -/
def searchLoop (xs : List β) (k : κ) : Nat → Nat → Nat → Option β
  | 0, _, _ => none
  | turns + 1, lo, hi =>
    if lo < hi then
      let mid := lo + (hi - lo) / 2
      match xs[mid]? with
      | none => none
      | some x =>
        if key x = k then some x
        else if key x < k then searchLoop xs k turns (mid + 1) hi
        else searchLoop xs k turns lo mid
    else none

def search (xs : List β) (k : κ) : Option β := searchLoop key xs k xs.length 0 xs.length

/-- Strictly ascending keys. -/
def Ascending (xs : List β) : Prop := xs.Pairwise fun x y => key x < key y

instance (xs : List β) : Decidable (Ascending key xs) :=
  inferInstanceAs (Decidable (xs.Pairwise fun x y => key x < key y))

variable {key}

theorem Ascending.lt {xs : List β} (sorted : Ascending key xs) {i j : Nat} {x y : β}
    (atI : xs[i]? = some x) (atJ : xs[j]? = some y) (before : i < j) : key x < key y := by
  obtain ⟨hi, rfl⟩ := List.getElem?_eq_some_iff.mp atI
  obtain ⟨hj, rfl⟩ := List.getElem?_eq_some_iff.mp atJ
  exact List.pairwise_iff_getElem.mp sorted i j hi hj before

/-- What is found is there, under the key that was looked for. -/
theorem searchLoop_sound {xs : List β} {k : κ} {x : β} (turns lo hi : Nat)
    (found : searchLoop key xs k turns lo hi = some x) : x ∈ xs ∧ key x = k := by
  induction turns generalizing lo hi with
  | zero => exact absurd found nofun
  | succ turns ih =>
    rw [searchLoop] at found
    split at found
    · dsimp only at found
      split at found
      · exact absurd found nofun
      · rename_i y atMid
        split at found
        · rename_i same
          rw [← Option.some.inj found]
          exact ⟨List.mem_of_getElem? atMid, same⟩
        · split at found
          · exact ih _ _ found
          · exact ih _ _ found
    · exact absurd found nofun

/-- What lies in the window is found. -/
theorem searchLoop_found {xs : List β} (sorted : Ascending key xs) {i : Nat} {x : β}
    (there : xs[i]? = some x) (turns lo hi : Nat) (enough : hi - lo ≤ turns) (low : lo ≤ i)
    (high : i < hi) (inside : hi ≤ xs.length) : searchLoop key xs (key x) turns lo hi = some x := by
  induction turns generalizing lo hi with
  | zero => omega
  | succ turns ih =>
    have open' : lo < hi := by omega
    have mid : lo + (hi - lo) / 2 < xs.length := by omega
    obtain ⟨y, found⟩ : ∃ y, xs[lo + (hi - lo) / 2]? = some y := ⟨_, List.getElem?_eq_getElem mid⟩
    rw [searchLoop, if_pos open']
    simp only [found]
    rcases Nat.lt_trichotomy i (lo + (hi - lo) / 2) with left | here | right
    · have order := sorted.lt there found left
      rw [if_neg (ne_of_gt order), if_neg (not_lt_of_gt order)]
      exact ih lo _ (by omega) low left (by omega)
    · have same : y = x := Option.some.inj (found.symm.trans (here ▸ there))
      rw [if_pos (congrArg key same), same]
    · have order := sorted.lt found there right
      rw [if_neg (ne_of_lt order), if_pos order]
      exact ih _ hi (by omega) (by omega) high inside

theorem search_found {xs : List β} (sorted : Ascending key xs) {x : β} (member : x ∈ xs) :
    search key xs (key x) = some x := by
  obtain ⟨i, inside, rfl⟩ := List.mem_iff_getElem.mp member
  exact searchLoop_found sorted (List.getElem?_eq_getElem inside) _ 0 _ (by omega) (by omega)
    inside (Nat.le_refl _)

/-- A key that nothing has is not found. -/
theorem search_absent {xs : List β} {k : κ} (absent : ∀ x ∈ xs, key x ≠ k) :
    search key xs k = none := by
  rw [Option.eq_none_iff_forall_ne_some]
  intro x found
  have sound := searchLoop_sound _ _ _ found
  exact absent x sound.1 sound.2

end Es3Recomp.Library.BinarySearch
