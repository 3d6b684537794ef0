import Es3Recomp.Library.Transducer
import Mathlib.Data.List.Nodup

/-!
# Said once each, as long as there is room

`firsts` is a list without its repetitions, in the order in which its members first come. A
machine that remembers so many keys, and passes a key on when it begins to remember it, passes on
the beginning of that list (`run_remember`). `claim` is the loop that does the same in an array
whose free slots hold a value of their own; the array then holds the list (`Holds.claim`).
-/
namespace Es3Recomp.Library.FirstSeen

variable {κ : Type} [DecidableEq κ]

/-- A key at the end, where it is new. -/
def insertNew (seen : List κ) (key : κ) : List κ := if key ∈ seen then seen else seen ++ [key]

def firsts (keys : List κ) : List κ := keys.foldl insertNew []

theorem firsts_concat (keys : List κ) (key : κ) :
    firsts (keys ++ [key]) = insertNew (firsts keys) key := List.foldl_concat ..

theorem firsts_nodup (keys : List κ) : (firsts keys).Nodup := by
  induction keys using List.reverseRecOn with
  | nil => exact List.nodup_nil
  | append_singleton keys key ih =>
    rw [firsts_concat, insertNew]
    split
    next => exact ih
    next new => exact List.nodup_append_comm.mp (List.nodup_cons.mpr ⟨new, ih⟩)

theorem mem_firsts {keys : List κ} {key : κ} : key ∈ firsts keys ↔ key ∈ keys := by
  induction keys using List.reverseRecOn with
  | nil => exact Iff.rfl
  | append_singleton keys last ih =>
    rw [firsts_concat, insertNew, List.mem_append, List.mem_singleton, ← ih]
    split
    next old =>
      constructor
      · exact .inl
      · rintro (before | rfl)
        · exact before
        · exact old
    next => rw [List.mem_append, List.mem_singleton]

/-- The keys that are remembered, and the key itself where it is remembered from now on. -/
def remember (room : Nat) : Transducer (List κ) κ κ where
  step kept key :=
    if key ∈ kept then (kept, [])
    else if kept.length < room then (kept ++ [key], [key])
    else (kept, [])

theorem remember_step (room : Nat) (kept : List κ) (key : κ) :
    (remember room).step kept key =
      if key ∈ kept then (kept, [])
      else if kept.length < room then (kept ++ [key], [key])
      else (kept, []) := rfl

/-- One more key, where the first ones up to now are remembered. -/
theorem take_insertNew (room : Nat) (seen : List κ) (key : κ) :
    (remember room).step (seen.take room) key =
      ((insertNew seen key).take room,
        ((insertNew seen key).take room).drop (seen.take room).length) := by
  have behind : ∀ kept : List κ, kept.drop kept.length = [] := fun kept => List.drop_length
  rw [remember_step, insertNew]
  by_cases old : key ∈ seen
  · rw [if_pos old, behind]
    by_cases kept : key ∈ seen.take room
    · rw [if_pos kept]
    · have long : ¬ (seen.take room).length < room := by
        intro short
        have all : seen.take room = seen := by
          rw [List.length_take] at short
          exact List.take_of_length_le (by omega)
        exact kept (by rw [all]; exact old)
      rw [if_neg kept, if_neg long]
  · have absent : key ∉ seen.take room := fun member => old (List.mem_of_mem_take member)
    rw [if_neg old, if_neg absent]
    by_cases short : seen.length < room
    · have fits : (seen.take room).length < room := by
        rw [List.length_take]
        omega
      have all : seen.take room = seen := List.take_of_length_le (by omega)
      have whole : (seen ++ [key]).take room = seen ++ [key] :=
        List.take_of_length_le (by rw [List.length_append, List.length_singleton]; omega)
      rw [if_pos fits, all, whole, List.drop_left]
    · have full : ¬ (seen.take room).length < room := by
        rw [List.length_take]
        omega
      rw [if_neg full, List.take_append_of_le_length (by omega), behind]

/-- What is remembered and what was passed on are the first keys of the run. -/
theorem run_remember (room : Nat) (keys : List κ) :
    (remember room).run [] keys = ((firsts keys).take room, (firsts keys).take room) := by
  induction keys using List.reverseRecOn with
  | nil => simp [firsts]
  | append_singleton keys key ih =>
    have grows : (firsts keys).take room <+: (insertNew (firsts keys) key).take room := by
      rw [insertNew]
      split
      next => exact List.prefix_rfl
      next =>
        rw [List.take_append]
        exact List.prefix_append _ _
    rw [Transducer.run_concat, ih, take_insertNew, firsts_concat]
    rw [List.prefix_iff_eq_append.mp grows]

/-! ## The same in an array -/

/-- The loop over the slots from `i` on, with so many left: where the key is put, unless it is
there or there is no free slot. -/
def claim (free : κ) (slots : Nat → κ) (key : κ) : Nat → Nat → Option Nat
  | 0, _ => none
  | left + 1, i =>
    if slots i = key then none
    else if slots i = free then some i
    else claim free slots key left (i + 1)

/-- The slots hold the list, and what is behind it is free. -/
structure Holds (free : κ) (room : Nat) (slots : Nat → κ) (kept : List κ) : Prop where
  fits : kept.length ≤ room
  none_free : free ∉ kept
  here : ∀ i, (inside : i < kept.length) → slots i = kept[i]
  behind : ∀ i, kept.length ≤ i → i < room → slots i = free

variable {free key : κ} {room : Nat} {slots : Nat → κ} {kept : List κ}

omit [DecidableEq κ] in
theorem holds_empty (free : κ) (room : Nat) : Holds free room (fun _ => free) [] where
  fits := Nat.zero_le room
  none_free := List.not_mem_nil
  here _ inside := absurd inside (Nat.not_lt_zero _)
  behind _ _ _ := rfl

/-- The loop ends at the key or behind the list. -/
theorem Holds.claim_from (holds : Holds free room slots kept) (some_ : key ≠ free) (i : Nat)
    (inside : i ≤ kept.length) (absent : key ∉ kept.take i) :
    claim free slots key (room - i) i =
      if key ∈ kept then none else if kept.length < room then some kept.length else none := by
  have fits := holds.fits
  rcases Nat.lt_or_ge i room with more | done
  · have left : room - i = room - (i + 1) + 1 := by omega
    rw [left, claim]
    rcases Nat.lt_or_ge i kept.length with within | behind
    · rw [holds.here i within]
      by_cases hit : kept[i] = key
      · rw [if_pos hit, if_pos (hit ▸ List.getElem_mem within)]
      · have other : kept[i] ≠ free := fun same => holds.none_free (same ▸ List.getElem_mem within)
        have next : key ∉ kept.take (i + 1) := by
          rw [List.take_succ_eq_append_getElem within, List.mem_append, List.mem_singleton]
          exact not_or.mpr ⟨absent, fun same => hit same.symm⟩
        rw [if_neg hit, if_neg other]
        exact holds.claim_from some_ (i + 1) within next
    · have last : i = kept.length := Nat.le_antisymm inside behind
      have none_ : key ∉ kept := by
        rw [last, List.take_length] at absent
        exact absent
      rw [holds.behind i behind more, if_neg (Ne.symm some_), if_pos rfl, if_neg none_,
        if_pos (last ▸ more), last]
  · have last : i = kept.length := by omega
    have none_ : key ∉ kept := by
      rw [last, List.take_length] at absent
      exact absent
    have left : room - i = 0 := by omega
    have full : ¬ kept.length < room := by omega
    rw [left, claim, if_neg none_, if_neg full]
termination_by room - i

/-- The array is the machine that remembers. -/
theorem Holds.claim (holds : Holds free room slots kept) (some_ : key ≠ free) :
    claim free slots key room 0 =
      if key ∈ kept then none else if kept.length < room then some kept.length else none := by
  have none_yet : key ∉ kept.take 0 := by
    rw [List.take_zero]
    exact List.not_mem_nil
  exact holds.claim_from some_ 0 (Nat.zero_le _) none_yet

/-- The value of the free slots is never put into one. -/
theorem claim_free (left i : Nat) : claim free slots free left i = none := by
  induction left generalizing i with
  | zero => rfl
  | succ left ih =>
    rw [claim]
    by_cases there : slots i = free
    · rw [if_pos there]
    · rw [if_neg there, if_neg there, ih]

omit [DecidableEq κ] in
theorem Holds.put (holds : Holds free room slots kept) (some_ : key ≠ free)
    (space : kept.length < room) :
    Holds free room (Function.update slots kept.length key) (kept ++ [key]) where
  fits := by
    rw [List.length_append, List.length_singleton]
    exact space
  none_free := by
    rw [List.mem_append, List.mem_singleton]
    exact not_or.mpr ⟨holds.none_free, Ne.symm some_⟩
  here i inside := by
    rw [List.length_append, List.length_singleton] at inside
    rcases Nat.lt_or_ge i kept.length with before | last
    · rw [Function.update_of_ne (Nat.ne_of_lt before), List.getElem_append_left before]
      exact holds.here i before
    · have same : i = kept.length := by omega
      subst same
      rw [Function.update_self, List.getElem_concat_length rfl]
  behind i behind inside := by
    rw [List.length_append, List.length_singleton] at behind
    rw [Function.update_of_ne (by omega)]
    exact holds.behind i (by omega) inside

/-- The first keys, and one more. -/
theorem take_firsts_concat (room : Nat) (keys : List κ) (key : κ) :
    (firsts (keys ++ [key])).take room =
      if key ∈ (firsts keys).take room then (firsts keys).take room
      else if ((firsts keys).take room).length < room then (firsts keys).take room ++ [key]
      else (firsts keys).take room := by
  have step := congrArg Prod.fst (take_insertNew room (firsts keys) key)
  rw [remember_step, apply_ite Prod.fst, apply_ite Prod.fst] at step
  rw [firsts_concat]
  exact step.symm

/-- A key that gets a slot is one more of the first ones. -/
theorem Holds.claimed {keys : List κ} {k : Nat}
    (holds : Holds free room slots ((firsts keys).take room)) (some_ : key ≠ free)
    (found : FirstSeen.claim free slots key room 0 = some k) :
    Holds free room (Function.update slots k key) ((firsts (keys ++ [key])).take room) ∧
      (firsts (keys ++ [key])).take room = (firsts keys).take room ++ [key] := by
  rw [holds.claim some_] at found
  split at found
  next => cases found
  next new =>
    split at found
    next space =>
      obtain rfl := Option.some.inj found
      have grown : (firsts (keys ++ [key])).take room = (firsts keys).take room ++ [key] := by
        rw [take_firsts_concat, if_neg new, if_pos space]
      rw [grown]
      exact ⟨holds.put some_ space, rfl⟩
    next => cases found

/-- A key that gets none leaves them as they are. -/
theorem Holds.unclaimed {keys : List κ} (holds : Holds free room slots ((firsts keys).take room))
    (some_ : key ≠ free) (found : FirstSeen.claim free slots key room 0 = none) :
    (firsts (keys ++ [key])).take room = (firsts keys).take room := by
  rw [holds.claim some_] at found
  rw [take_firsts_concat]
  split at found
  next old => rw [if_pos old]
  next new =>
    split at found
    next => cases found
    next full => rw [if_neg new, if_neg full]

end Es3Recomp.Library.FirstSeen
