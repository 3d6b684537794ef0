import Mathlib.Logic.Function.Basic
import Mathlib.Data.List.Basic

/-!
# A ring buffer with one slot kept free, as a bounded queue

Two indices walk a fixed array: `tail` is where the next element is stored,
`head` is the next one to be taken, and the ring is empty when they meet. One
slot always stays free, so that a full ring is not mistaken for an empty one.
The indices carry their own bound, so no ring outside its array can be built.
`contents` is the queue the ring stands for; `contents_push`, `take_fst` and
`contents_take` say that the ring is that queue, bounded by `cap - 1`.
-/
namespace Es3Recomp.Library

structure Ring (α : Type) (cap : Nat) where
  slot : Fin cap → α
  head : Fin cap
  tail : Fin cap

namespace Ring
variable {α : Type} {cap : Nat}

/-- The index after `i`, wrapping at the end of the array. -/
def next (i : Fin cap) : Fin cap :=
  ⟨(i.val + 1) % cap, Nat.mod_lt _ (Nat.lt_of_le_of_lt (Nat.zero_le _) i.isLt)⟩

def avail (r : Ring α cap) : Nat := (r.tail.val + cap - r.head.val) % cap

/-- How many elements can still be pushed. -/
def room (r : Ring α cap) : Nat := cap - 1 - r.avail

/-- Store at the tail, or drop the element when the tail would meet the head. -/
def push (r : Ring α cap) (a : α) : Ring α cap :=
  if next r.tail = r.head then r
  else { r with slot := Function.update r.slot r.tail a, tail := next r.tail }

def pushAll (r : Ring α cap) (xs : List α) : Ring α cap := xs.foldl push r

/-- Take up to `n` elements from the head. -/
def take : Nat → Ring α cap → List α × Ring α cap
  | 0, r => ([], r)
  | n + 1, r =>
    if r.head = r.tail then ([], r)
    else
      let rest := take n { r with head := next r.head }
      (r.slot r.head :: rest.1, rest.2)

/-- The `n` elements found by walking from index `i`. -/
def walk (slot : Fin cap → α) : Nat → Fin cap → List α
  | 0, _ => []
  | n + 1, i => slot i :: walk slot n (next i)

/-- The queue the ring stands for, oldest element first. -/
def contents (r : Ring α cap) : List α := walk r.slot r.avail r.head

/-- The index `n` places after `i`. -/
def advance (i : Fin cap) (n : Nat) : Fin cap :=
  ⟨(i.val + n) % cap, Nat.mod_lt _ (Nat.lt_of_le_of_lt (Nat.zero_le _) i.isLt)⟩

@[simp] theorem next_val (i : Fin cap) : (next i).val = (i.val + 1) % cap := rfl

@[simp] theorem advance_val (i : Fin cap) (n : Nat) : (advance i n).val = (i.val + n) % cap := rfl

theorem advance_zero (i : Fin cap) : advance i 0 = i :=
  Fin.ext (by simp [Nat.mod_eq_of_lt i.isLt])

theorem advance_next (i : Fin cap) (n : Nat) : advance (next i) n = advance i (n + 1) :=
  Fin.ext (by simp only [advance_val, next_val, Nat.mod_add_mod]; congr 1; omega)

@[simp] theorem length_walk (slot : Fin cap → α) (n : Nat) (i : Fin cap) :
    (walk slot n i).length = n := by
  induction n generalizing i with
  | zero => rfl
  | succ n ih => simp [walk, ih]

@[simp] theorem length_contents (r : Ring α cap) : r.contents.length = r.avail := length_walk ..

/-- Walking one place further appends the element found there. -/
theorem walk_succ (slot : Fin cap → α) (n : Nat) (i : Fin cap) :
    walk slot (n + 1) i = walk slot n i ++ [slot (advance i n)] := by
  induction n generalizing i with
  | zero => simp [walk, advance_zero]
  | succ n ih =>
    rw [walk, ih (next i), advance_next]
    rfl

/-- A store outside the places walked over is not seen by the walk. -/
theorem walk_update (slot : Fin cap → α) (j : Fin cap) (a : α) (n : Nat) (i : Fin cap)
    (outside : ∀ k < n, advance i k ≠ j) :
    walk (Function.update slot j a) n i = walk slot n i := by
  induction n generalizing i with
  | zero => rfl
  | succ n ih =>
    have here : i ≠ j := by simpa [advance_zero] using outside 0 (Nat.succ_pos n)
    have rest := ih (next i) (fun k hk => by
      rw [advance_next]
      exact outside (k + 1) (Nat.succ_lt_succ hk))
    rw [walk, rest, Function.update_of_ne here]
    rfl

theorem avail_lt (r : Ring α cap) : r.avail < cap :=
  Nat.mod_lt _ (Nat.lt_of_le_of_lt (Nat.zero_le _) r.head.isLt)

theorem avail_add_room (r : Ring α cap) : r.avail + r.room = cap - 1 := by
  have := r.avail_lt
  unfold room
  omega

/-- Without the wrap: the tail is `avail` places after the head. -/
theorem avail_cases (r : Ring α cap) :
    (r.head.val ≤ r.tail.val ∧ r.avail = r.tail.val - r.head.val) ∨
      (r.tail.val < r.head.val ∧ r.avail = r.tail.val + cap - r.head.val) := by
  have hh := r.head.isLt
  have ht := r.tail.isLt
  unfold avail
  rcases Nat.lt_or_ge r.tail.val r.head.val with wrapped | straight
  · exact Or.inr ⟨wrapped, Nat.mod_eq_of_lt (by omega)⟩
  · refine Or.inl ⟨straight, ?_⟩
    rw [show r.tail.val + cap - r.head.val = r.tail.val - r.head.val + cap by omega,
      Nat.add_mod_right, Nat.mod_eq_of_lt (by omega)]

theorem next_cases (i : Fin cap) :
    (i.val + 1 < cap ∧ (next i).val = i.val + 1) ∨ (i.val + 1 = cap ∧ (next i).val = 0) := by
  have hi := i.isLt
  rcases Nat.lt_or_ge (i.val + 1) cap with inside | last
  · exact Or.inl ⟨inside, Nat.mod_eq_of_lt inside⟩
  · have edge : i.val + 1 = cap := by omega
    exact Or.inr ⟨edge, by simp [edge]⟩

theorem advance_avail (r : Ring α cap) : advance r.head r.avail = r.tail := by
  have ht := r.tail.isLt
  apply Fin.ext
  rw [advance_val]
  rcases r.avail_cases with ⟨order, distance⟩ | ⟨order, distance⟩
  · rw [distance, Nat.add_sub_cancel' order, Nat.mod_eq_of_lt ht]
  · rw [distance, show r.head.val + (r.tail.val + cap - r.head.val) = r.tail.val + cap by
      have := r.head.isLt; omega, Nat.add_mod_right, Nat.mod_eq_of_lt ht]

theorem advance_ne_tail (r : Ring α cap) (k : Nat) (inside : k < r.avail) :
    advance r.head k ≠ r.tail := by
  have hh := r.head.isLt
  have ht := r.tail.isLt
  intro same
  have value : (r.head.val + k) % cap = r.tail.val := congrArg Fin.val same
  rcases Nat.lt_or_ge (r.head.val + k) cap with small | large
  · rw [Nat.mod_eq_of_lt small] at value
    rcases r.avail_cases with ⟨order, distance⟩ | ⟨order, distance⟩ <;> omega
  · rw [Nat.mod_eq_sub_mod large, Nat.mod_eq_of_lt (by have := r.avail_lt; omega)] at value
    rcases r.avail_cases with ⟨order, distance⟩ | ⟨order, distance⟩ <;> omega

/-- The ring is full, and `push` drops, exactly when no room is left. -/
theorem next_tail_eq_head_iff (r : Ring α cap) : next r.tail = r.head ↔ r.room = 0 := by
  have hh := r.head.isLt
  have ht := r.tail.isLt
  rw [Fin.ext_iff]
  unfold room
  rcases r.avail_cases with ⟨order, distance⟩ | ⟨order, distance⟩ <;>
    rcases next_cases r.tail with ⟨edge, value⟩ | ⟨edge, value⟩ <;> omega

theorem head_eq_tail_iff (r : Ring α cap) : r.head = r.tail ↔ r.avail = 0 := by
  have hh := r.head.isLt
  have ht := r.tail.isLt
  rw [Fin.ext_iff]
  rcases r.avail_cases with ⟨order, distance⟩ | ⟨order, distance⟩ <;> omega

theorem avail_push (r : Ring α cap) (a : α) (free : r.room ≠ 0) :
    (r.push a).avail = r.avail + 1 := by
  have hh := r.head.isLt
  have ht := r.tail.isLt
  have notFull := (next_tail_eq_head_iff r).not.mpr free
  have old := r.avail_cases
  have new := (r.push a).avail_cases
  unfold room at free
  simp only [push, if_neg notFull] at new ⊢
  rcases next_cases r.tail with ⟨edge, value⟩ | ⟨edge, value⟩ <;> rw [value] at new <;>
    rcases old with ⟨order, distance⟩ | ⟨order, distance⟩ <;>
    rcases new with ⟨order', distance'⟩ | ⟨order', distance'⟩ <;> omega

theorem contents_push (r : Ring α cap) (a : α) :
    (r.push a).contents = if r.room = 0 then r.contents else r.contents ++ [a] := by
  by_cases full : r.room = 0
  · have stop := (next_tail_eq_head_iff r).mpr full
    simp [push, stop, full]
  · have notFull := (next_tail_eq_head_iff r).not.mpr full
    rw [if_neg full]
    unfold contents
    rw [avail_push r a full]
    simp only [push, if_neg notFull]
    rw [walk_succ, advance_avail, Function.update_self,
      walk_update _ _ _ _ _ (fun k hk => advance_ne_tail r k hk)]

/-- Elements that do not fit are dropped one by one: what arrives is a prefix. -/
theorem contents_pushAll (r : Ring α cap) (xs : List α) :
    (r.pushAll xs).contents = r.contents ++ xs.take r.room := by
  induction xs generalizing r with
  | nil => simp [pushAll]
  | cons x xs ih =>
    have step : (r.pushAll (x :: xs)) = (r.push x).pushAll xs := rfl
    rw [step, ih, contents_push]
    by_cases full : r.room = 0
    · have same : r.push x = r := by simp [push, (next_tail_eq_head_iff r).mpr full]
      simp [full, same]
    · have count := avail_push r x full
      have before := r.avail_add_room
      have after := (r.push x).avail_add_room
      rw [if_neg full, show r.room = (r.push x).room + 1 by omega]
      simp

theorem avail_dropHead (r : Ring α cap) (some : r.avail ≠ 0) :
    ({ r with head := next r.head } : Ring α cap).avail = r.avail - 1 := by
  have hh := r.head.isLt
  have ht := r.tail.isLt
  have old := r.avail_cases
  have new := ({ r with head := next r.head } : Ring α cap).avail_cases
  simp only at new
  rcases next_cases r.head with ⟨edge, value⟩ | ⟨edge, value⟩ <;> rw [value] at new <;>
    rcases old with ⟨order, distance⟩ | ⟨order, distance⟩ <;>
    rcases new with ⟨order', distance'⟩ | ⟨order', distance'⟩ <;> omega

theorem contents_cons (r : Ring α cap) (some : r.avail ≠ 0) :
    r.contents = r.slot r.head :: ({ r with head := next r.head } : Ring α cap).contents := by
  unfold contents
  rw [avail_dropHead r some]
  obtain ⟨n, hn⟩ := Nat.exists_eq_succ_of_ne_zero some
  rw [hn]
  rfl

/-- What is taken is the front of the queue, and the queue loses just that. -/
theorem take_spec (n : Nat) (r : Ring α cap) :
    (take n r).1 = r.contents.take n ∧ (take n r).2.contents = r.contents.drop n := by
  induction n generalizing r with
  | zero => simp [take]
  | succ n ih =>
    by_cases empty : r.head = r.tail
    · have none : r.contents = [] := by
        rw [← List.length_eq_zero_iff, length_contents]
        exact (head_eq_tail_iff r).mp empty
      simp [take, empty, none]
    · have some := (head_eq_tail_iff r).not.mp empty
      obtain ⟨front, rest⟩ := ih { r with head := next r.head }
      simp only [take, if_neg empty, contents_cons r some, List.take_succ_cons,
        List.drop_succ_cons, front, rest, and_self]

theorem take_fst (n : Nat) (r : Ring α cap) : (take n r).1 = r.contents.take n := (take_spec n r).1

theorem contents_take (n : Nat) (r : Ring α cap) : (take n r).2.contents = r.contents.drop n :=
  (take_spec n r).2

end Ring
end Es3Recomp.Library
