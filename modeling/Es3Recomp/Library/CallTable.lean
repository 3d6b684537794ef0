import Mathlib.Data.List.Basic
import Mathlib.Algebra.Notation.Defs

/-!
# Passes over a table of things to call

A table has null entries, which are passed over; the others are called in order, and a call
may change the state as it likes. A pass that is told to stops at the first call whose result
is not zero. `Passed` says which calls a pass has made without the loop, and `Executed` what the
calls did; `pass_keeps` is its invariant rule, `pass_passed` and `pass_executed` its laws. A table that is read entry by entry while the calls go on
(`passFrom`) is passed as it was at first, when the calls leave it alone (`passFrom_eq`).
-/
namespace Es3Recomp.Library.CallTable

/-- A call, and the result of the state it left. -/
structure Call (A R : Type) where
  callee : A
  result : R
  deriving DecidableEq

/-- How a pass ended: the state, its result, and the calls it made. -/
structure Pass (S A R : Type) where
  state : S
  result : R
  calls : List (Call A R)

section
variable {S A R : Type} [Zero A] [Zero R]

def Pass.after (w : Pass S A R) (c : Call A R) : Pass S A R := { w with calls := c :: w.calls }

variable [DecidableEq A]

/-- The entries that are to be called. -/
def present (entries : List A) : List A := entries.filter (· ≠ 0)

/-- What the pass over a table has called and returned. -/
inductive Passed (stop : Bool) (entries : List A) (calls : List (Call A R)) (ret : R) : Prop where
  /-- to the end, and when it was to stop, nothing stopped it -/
  | whole (all : calls.map Call.callee = present entries)
      (quiet : stop = true → ∀ c ∈ calls, c.result = 0) (zero : ret = 0)
  /-- up to the first call with a result, which it returns -/
  | stopped (may : stop = true) (before : List (Call A R)) (last : Call A R)
      (ends : calls = before ++ [last]) (quiet : ∀ c ∈ before, c.result = 0)
      (failed : last.result ≠ 0) (returned : ret = last.result)
      (first : calls.map Call.callee <+: present entries)

theorem Passed.skip {stop : Bool} {entries : List A} {calls : List (Call A R)} {ret : R}
    (walked : Passed stop entries calls ret) : Passed stop (0 :: entries) calls ret := by
  have same : present (0 :: entries) = present entries := by simp [present]
  cases walked with
  | whole all quiet zero => exact .whole (all.trans same.symm) quiet zero
  | stopped may before last ends quiet failed returned first =>
    exact .stopped may before last ends quiet failed returned (by rwa [same])

theorem Passed.cons {stop : Bool} {entries : List A} {calls : List (Call A R)} {ret : R}
    {c : Call A R}
    (walked : Passed stop entries calls ret) (there : c.callee ≠ 0)
    (goes_on : stop = true → c.result = 0) :
    Passed stop (c.callee :: entries) (c :: calls) ret := by
  have more : present (c.callee :: entries) = c.callee :: present entries := by
    simp [present, there]
  cases walked with
  | whole all quiet zero =>
    refine .whole (by rw [List.map_cons, all, more]) (fun may => ?_) zero
    exact List.forall_mem_cons.mpr ⟨goes_on may, quiet may⟩
  | stopped may before last ends quiet failed returned first =>
    refine .stopped may (c :: before) last (by rw [ends]; rfl)
      (List.forall_mem_cons.mpr ⟨goes_on may, quiet⟩) failed returned ?_
    rw [List.map_cons, more]
    exact List.cons_prefix_cons.mpr ⟨rfl, first⟩

/-- The calls were made one after another from the state `s` on, and left the state `t`: each
has the result of the state it left. -/
inductive Executed (call : S → A → S) (result : S → R) : S → List (Call A R) → S → Prop where
  | none (s : S) : Executed call result s [] s
  | one {s t : S} {a : A} {calls : List (Call A R)}
      (later : Executed call result (call s a) calls t) :
      Executed call result s (⟨a, result (call s a)⟩ :: calls) t

variable [DecidableEq R]

def pass (call : S → A → S) (result : S → R) (stop : Bool) : List A → S → Pass S A R
  | [], s => ⟨s, 0, []⟩
  | a :: as, s =>
    if a = 0 then pass call result stop as s
    else
      let s' := call s a
      if stop ∧ result s' ≠ 0 then ⟨s', result s', [⟨a, result s'⟩]⟩
      else (pass call result stop as s').after ⟨a, result s'⟩

/-- The pass over the `k` entries from the number `i` on, each read when it is come to. -/
def passFrom (read : S → Nat → A) (call : S → A → S) (result : S → R) (stop : Bool) :
    Nat → Nat → S → Pass S A R
  | 0, _, s => ⟨s, 0, []⟩
  | k + 1, i, s =>
    if read s i = 0 then passFrom read call result stop k (i + 1) s
    else
      let s' := call s (read s i)
      if stop ∧ result s' ≠ 0 then ⟨s', result s', [⟨read s i, result s'⟩]⟩
      else (passFrom read call result stop k (i + 1) s').after ⟨read s i, result s'⟩

variable {call : S → A → S} {result : S → R} {stop : Bool}

/-- Whatever the calls do: the entries in order, each once, up to where the pass stopped. -/
theorem pass_passed (entries : List A) (s : S) :
    Passed stop entries (pass call result stop entries s).calls
      (pass call result stop entries s).result := by
  induction entries generalizing s with
  | nil => exact .whole rfl (fun _ _ member => absurd member List.not_mem_nil) rfl
  | cons a as ih =>
    rw [pass]
    by_cases null : a = 0
    · rw [if_pos null, null]
      exact (ih s).skip
    · rw [if_neg null]
      by_cases stops : stop = true ∧ result (call s a) ≠ 0
      · simp only [if_pos stops]
        refine .stopped stops.1 [] ⟨a, result (call s a)⟩ rfl
          (fun _ member => absurd member List.not_mem_nil) stops.2 rfl ?_
        have more : present (a :: as) = a :: present as := by simp [present, null]
        rw [more]
        exact List.cons_prefix_cons.mpr ⟨rfl, List.nil_prefix⟩
      · simp only [if_neg stops]
        refine Passed.cons (c := ⟨a, result (call s a)⟩) (ih (call s a)) null fun may => ?_
        by_contra failed
        exact stops ⟨may, failed⟩

/-- The calls of a pass were made, and the state it ends in is the one they left. -/
theorem pass_executed (entries : List A) (s : S) :
    Executed call result s (pass call result stop entries s).calls
      (pass call result stop entries s).state := by
  induction entries generalizing s with
  | nil => exact .none s
  | cons a as ih =>
    rw [pass]
    by_cases null : a = 0
    · rw [if_pos null]
      exact ih s
    · rw [if_neg null]
      by_cases stops : stop = true ∧ result (call s a) ≠ 0
      · simp only [if_pos stops]
        exact .one (.none _)
      · simp only [if_neg stops]
        exact .one (ih (call s a))

/-- What every call keeps, the pass keeps. -/
theorem pass_keeps {Inv : S → Prop} {entries : List A} {s : S} (start : Inv s)
    (keeps : ∀ s, Inv s → ∀ a ∈ entries, a ≠ 0 → Inv (call s a)) :
    Inv (pass call result stop entries s).state := by
  induction entries generalizing s with
  | nil => exact start
  | cons a as ih =>
    have later : ∀ s, Inv s → ∀ b ∈ as, b ≠ 0 → Inv (call s b) := fun s inv b member =>
      keeps s inv b (List.mem_cons_of_mem a member)
    rw [pass]
    by_cases null : a = 0
    · rw [if_pos null]
      exact ih start later
    · have called : Inv (call s a) := keeps s start a List.mem_cons_self null
      rw [if_neg null]
      by_cases stops : stop = true ∧ result (call s a) ≠ 0
      · simp only [if_pos stops]
        exact called
      · simp only [if_neg stops]
        exact ih called later

/-- Reading as it goes is no different where the calls leave the entries alone. -/
theorem passFrom_eq (Inv : S → Prop) {read : S → Nat → A} {entry : Nat → A} {n : Nat}
    (reads : ∀ s, Inv s → ∀ i, i < n → read s i = entry i)
    (keeps : ∀ s, Inv s → ∀ i, i < n → entry i ≠ 0 → Inv (call s (entry i))) {k i : Nat}
    (inside : i + k ≤ n) {s : S} (start : Inv s) :
    passFrom read call result stop k i s =
      pass call result stop ((List.range' i k).map entry) s := by
  induction k generalizing i s with
  | zero => rfl
  | succ k ih =>
    have here : i < n := by omega
    have rest : i + 1 + k ≤ n := by omega
    rw [passFrom, List.range'_succ, List.map_cons, pass, reads s start i here]
    by_cases null : entry i = 0
    · rw [if_pos null, if_pos null, ih rest start]
    · rw [if_neg null, if_neg null]
      simp only [ih rest (keeps s start i here null)]

end

end Es3Recomp.Library.CallTable
