import Mathlib.Data.List.DropRight
import Mathlib.Data.Nat.ModEq
import Mathlib.Logic.Function.Basic

/-!
# A log that keeps its last entries

Every entry goes to the slot its number has modulo the capacity, and the counter
of entries is itself kept modulo some number. `Logs` says what such a log knows of
the entries recorded in it; `recent_eq` that reading back from the counter gives
the last entries in order, as many as the counter and the capacity allow. The
slots are right for ever when the capacity divides the counter's modulus; only
how far a reader may go back depends on the counter.
-/
namespace Es3Recomp.Library

structure RingLog (α : Type) (cap modulus : Nat) where
  slot : Fin cap → α
  count : Fin modulus

namespace RingLog
variable {α : Type} {cap modulus : Nat} [NeZero cap]

def note [NeZero modulus] (l : RingLog α cap modulus) (a : α) : RingLog α cap modulus where
  slot := Function.update l.slot (Fin.ofNat cap l.count) a
  count := Fin.ofNat modulus (l.count + 1)

def record [NeZero modulus] (l : RingLog α cap modulus) (xs : List α) : RingLog α cap modulus :=
  xs.foldl note l

/-- What a reader finds for the value `i` of the counter. -/
def entry (l : RingLog α cap modulus) (i : Nat) : α := l.slot (Fin.ofNat cap i)

/-- The `k` entries before the counter, oldest first. -/
def recent (l : RingLog α cap modulus) (k : Nat) : List α :=
  (List.range k).map fun j => l.entry (l.count - k + j)

/-- The log after `xs` has been recorded: the counter, and the slot of each of the
last `cap` entries. -/
structure Logs (l : RingLog α cap modulus) (xs : List α) : Prop where
  count : l.count.val = xs.length % modulus
  kept : ∀ j (h : j < xs.length), xs.length ≤ j + cap → l.entry j = xs.get ⟨j, h⟩

theorem entry_congr (l : RingLog α cap modulus) {i j : Nat} (same : i % cap = j % cap) :
    l.entry i = l.entry j := by
  unfold entry
  exact congrArg l.slot (Fin.ext same)

theorem logs_nil (l : RingLog α cap modulus) (fresh : l.count.val = 0) : Logs l [] :=
  ⟨by rw [fresh, List.length_nil, Nat.zero_mod], fun _ h => absurd h (Nat.not_lt_zero _)⟩

theorem entry_note [NeZero modulus] (l : RingLog α cap modulus) (a : α) (i : Nat) :
    (l.note a).entry i = if i % cap = l.count.val % cap then a else l.entry i := by
  simp only [entry, note]
  by_cases same : i % cap = l.count.val % cap
  · have index : Fin.ofNat cap i = Fin.ofNat cap l.count := Fin.ext same
    rw [if_pos same, index, Function.update_self]
  · have index : Fin.ofNat cap i ≠ Fin.ofNat cap l.count := fun h => same (congrArg Fin.val h)
    rw [if_neg same, Function.update_of_ne index]

theorem Logs.note [NeZero modulus] (divides : cap ∣ modulus) {l : RingLog α cap modulus} {xs : List α}
    (logs : Logs l xs) (a : α) : Logs (l.note a) (xs ++ [a]) := by
  have here : l.count.val % cap = xs.length % cap := by
    rw [logs.count, Nat.mod_mod_of_dvd _ divides]
  refine ⟨?_, fun j inside near => ?_⟩
  · change (l.count.val + 1) % modulus = _
    rw [logs.count, Nat.mod_add_mod, List.length_append, List.length_singleton]
  · rw [entry_note, here]
    rw [List.length_append, List.length_singleton] at inside near
    rcases Nat.lt_or_ge j xs.length with old | new
    · have apart : ¬ j % cap = xs.length % cap := fun same => by
        have multiple : cap ∣ xs.length - j :=
          (Nat.modEq_iff_dvd' (Nat.le_of_lt old)).mp same
        exact absurd (Nat.le_of_dvd (by omega) multiple) (by omega)
      rw [if_neg apart, logs.kept j old (by omega), List.get_eq_getElem, List.get_eq_getElem,
        List.getElem_append_left old]
    · obtain rfl : j = xs.length := by omega
      rw [if_pos rfl, List.get_eq_getElem, List.getElem_concat_length rfl]

theorem Logs.record [NeZero modulus] (divides : cap ∣ modulus) {l : RingLog α cap modulus} {xs : List α}
    (logs : Logs l xs) (ys : List α) : Logs (l.record ys) (xs ++ ys) := by
  induction ys generalizing l xs with
  | nil => rwa [List.append_nil]
  | cons y ys ih =>
    have rest := ih (logs.note divides y)
    rwa [List.append_assoc] at rest

/-- As far back as the counter and the capacity go, the log is what was recorded. -/
theorem recent_eq (divides : cap ∣ modulus) {l : RingLog α cap modulus} {xs : List α}
    (logs : Logs l xs) {k : Nat} (counted : k ≤ l.count.val) (fits : k ≤ cap) :
    l.recent k = xs.rtake k := by
  have whole : l.count.val + modulus * (xs.length / modulus) = xs.length := by
    rw [logs.count]
    exact Nat.mod_add_div _ _
  rw [List.rtake]
  apply List.ext_getElem
  · simp only [recent, List.length_map, List.length_range, List.length_drop]
    omega
  · intro j inside inside'
    have near : j < k := by simpa [recent] using inside
    have index : (l.count.val - k + j) % cap = (xs.length - k + j) % cap := by
      obtain ⟨q, multiple⟩ := divides
      have ahead : xs.length - k + j =
          l.count.val - k + j + cap * (q * (xs.length / modulus)) := by
        rw [← Nat.mul_assoc, ← multiple]
        omega
      rw [ahead, Nat.add_mul_mod_self_left]
    have found := logs.kept (xs.length - k + j) (by omega) (by omega)
    rw [List.get_eq_getElem] at found
    simp only [recent, List.getElem_map, List.getElem_range, List.getElem_drop]
    rw [l.entry_congr index, found]

end RingLog
end Es3Recomp.Library
