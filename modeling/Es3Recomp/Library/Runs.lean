import Mathlib.Order.Basic

/-!
# Maximal runs, from the left

A pass over the numbers below `n` takes the maximal ranges in which a predicate holds, at most so
many. `FirstRuns` says which these are without the loop: they are maximal, ascending, and whatever
maximal range is not among them lies behind all of them, the limit being reached. Its lemmas
follow the turns of such a loop.
-/
namespace Es3Recomp.Library

/-- From `start` up to `stop`, `stop` left out. -/
structure Range where
  start : Nat
  stop : Nat
  deriving DecidableEq

namespace Range

def Has (r : Range) (i : Nat) : Prop := r.start ≤ i ∧ i < r.stop

instance (r : Range) (i : Nat) : Decidable (r.Has i) := inferInstanceAs (Decidable (_ ∧ _))

/-- `p` holds all over the range, and at neither side of it. -/
structure MaximalRun (p : Nat → Bool) (n : Nat) (r : Range) : Prop where
  nonempty : r.start < r.stop
  inside : r.stop ≤ n
  holds : ∀ i, r.Has i → p i = true
  left : ∀ i, i + 1 = r.start → p i = false
  right : r.stop < n → p r.stop = false

end Range

/-- What a pass from the number `i` on takes. -/
structure FirstRuns (p : Nat → Bool) (n i limit : Nat) (rs : List Range) : Prop where
  maximal : ∀ r ∈ rs, r.MaximalRun p n ∧ i ≤ r.start
  ascending : rs.Pairwise fun r r' => r.stop < r'.start
  atMost : rs.length ≤ limit
  first : ∀ r : Range, r.MaximalRun p n → i ≤ r.start →
    r ∈ rs ∨ rs.length = limit ∧ ∀ r' ∈ rs, r'.stop < r.start

/-- Where a run that has come to `i` ends, with so many numbers left. -/
def runEnd (p : Nat → Bool) : Nat → Nat → Nat
  | 0, i => i
  | left + 1, i => if p i then runEnd p left (i + 1) else i

section
variable {p : Nat → Bool}

theorem runEnd_bounds (left i : Nat) : i ≤ runEnd p left i ∧ runEnd p left i ≤ i + left := by
  induction left generalizing i with
  | zero => exact ⟨Nat.le_refl _, Nat.le_refl _⟩
  | succ left ih =>
    rw [runEnd]
    have rest := ih (i + 1)
    split
    · omega
    · omega

theorem runEnd_holds {left i j : Nat} (from_i : i ≤ j) (before : j < runEnd p left i) :
    p j = true := by
  induction left generalizing i with
  | zero => exact absurd before (Nat.not_lt_of_le from_i)
  | succ left ih =>
    rw [runEnd] at before
    by_cases here : p i = true
    · rw [if_pos here] at before
      rcases Nat.eq_or_lt_of_le from_i with rfl | later
      · exact here
      · exact ih later before
    · rw [if_neg here] at before
      exact absurd before (Nat.not_lt_of_le from_i)

theorem runEnd_stops {left i : Nat} (short : runEnd p left i < i + left) :
    p (runEnd p left i) = false := by
  induction left generalizing i with
  | zero => exact absurd short (Nat.lt_irrefl _)
  | succ left ih =>
    rw [runEnd] at short ⊢
    by_cases here : p i = true
    · rw [if_pos here] at short ⊢
      exact ih (by omega)
    · rw [if_neg here]
      exact Bool.not_eq_true _ ▸ here

/-- The run that starts where the predicate begins to hold. -/
theorem maximalRun_runEnd {n i : Nat} (inside : i < n) (here : p i = true)
    (left : ∀ j, j + 1 = i → p j = false) :
    Range.MaximalRun p n ⟨i, runEnd p (n - i) i⟩ where
  nonempty := by
    obtain ⟨left, some_left⟩ : ∃ left, n - i = left + 1 := ⟨n - i - 1, by omega⟩
    change i < runEnd p (n - i) i
    rw [some_left, runEnd, if_pos here]
    exact (runEnd_bounds left (i + 1)).1
  inside := by
    have bounds := runEnd_bounds (p := p) (n - i) i
    change runEnd p (n - i) i ≤ n
    omega
  holds j has := runEnd_holds has.1 has.2
  left := left
  right short := runEnd_stops (by change runEnd p (n - i) i < n at short; omega)

namespace Range.MaximalRun
variable {n : Nat} {r r' : Range}

theorem start_le (run : r.MaximalRun p n) (run' : r'.MaximalRun p n) {i : Nat} (has : r.Has i)
    (has' : r'.Has i) : r'.start ≤ r.start := by
  by_contra behind
  have before : r'.start - 1 + 1 = r'.start := by omega
  have held := run.holds (r'.start - 1) ⟨by omega, by have := has.2; have := has'.1; omega⟩
  rw [run'.left _ before] at held
  exact Bool.false_ne_true held

theorem stop_le (run : r.MaximalRun p n) (run' : r'.MaximalRun p n) {i : Nat} (has : r.Has i)
    (has' : r'.Has i) : r.stop ≤ r'.stop := by
  by_contra longer
  have held := run.holds r'.stop ⟨by have := has.1; have := has'.2; omega, by omega⟩
  have ends := run'.right (by have := run.inside; omega)
  rw [ends] at held
  exact Bool.false_ne_true held

/-- Two maximal runs that share a number are one. -/
theorem eq_of_has (run : r.MaximalRun p n) (run' : r'.MaximalRun p n) {i : Nat} (has : r.Has i)
    (has' : r'.Has i) : r = r' := by
  have start := Nat.le_antisymm (run'.start_le run has' has) (run.start_le run' has has')
  have stop := Nat.le_antisymm (run.stop_le run' has has') (run'.stop_le run has' has)
  cases r
  cases r'
  cases start
  cases stop
  rfl

end Range.MaximalRun

/-! ## What a pass takes, turn by turn -/

namespace FirstRuns
variable {n i limit : Nat} {rs : List Range}

theorem none (p : Nat → Bool) (n i : Nat) : FirstRuns p n i 0 [] where
  maximal _ member := absurd member List.not_mem_nil
  ascending := .nil
  atMost := Nat.le_refl 0
  first _ _ _ := .inr ⟨rfl, fun _ member => absurd member List.not_mem_nil⟩

theorem nil (done : n ≤ i) (limit : Nat) : FirstRuns p n i limit [] where
  maximal _ member := absurd member List.not_mem_nil
  ascending := .nil
  atMost := Nat.zero_le _
  first r run from_i := by
    have := run.nonempty
    have := run.inside
    omega

theorem skip (not_here : p i = false) (rest : FirstRuns p n (i + 1) limit rs) :
    FirstRuns p n i limit rs where
  maximal r member := ⟨(rest.maximal r member).1, Nat.le_of_succ_le (rest.maximal r member).2⟩
  ascending := rest.ascending
  atMost := rest.atMost
  first r run from_i := by
    refine rest.first r run (Nat.lt_of_le_of_ne from_i ?_)
    rintro rfl
    have held := run.holds r.start ⟨Nat.le_refl _, run.nonempty⟩
    rw [not_here] at held
    exact Bool.false_ne_true held

theorem cons (inside : i < n) (here : p i = true) (left : ∀ j, j + 1 = i → p j = false)
    (rest : FirstRuns p n (runEnd p (n - i) i + 1) limit rs) :
    FirstRuns p n i (limit + 1) (⟨i, runEnd p (n - i) i⟩ :: rs) := by
  have run := maximalRun_runEnd inside here left
  have past := (runEnd_bounds (p := p) (n - i) i).1
  refine ⟨List.forall_mem_cons.mpr ⟨⟨run, Nat.le_refl i⟩, fun r member => ?_⟩, ?_, ?_, ?_⟩
  · have behind := (rest.maximal r member).2
    exact ⟨(rest.maximal r member).1, by omega⟩
  · exact List.pairwise_cons.mpr ⟨fun r member => (rest.maximal r member).2, rest.ascending⟩
  · exact Nat.succ_le_succ rest.atMost
  · intro r run' from_i
    rcases Nat.lt_or_ge (runEnd p (n - i) i) r.start with behind | near
    · rcases rest.first r run' behind with member | ⟨full, all⟩
      · exact .inl (List.mem_cons_of_mem _ member)
      · exact .inr ⟨congrArg (· + 1) full, List.forall_mem_cons.mpr ⟨behind, all⟩⟩
    · have has' : r.Has r.start := ⟨Nat.le_refl _, run'.nonempty⟩
      rcases Nat.eq_or_lt_of_le near with ends | within
      · have short : runEnd p (n - i) i < n := by
          have := run'.nonempty
          have := run'.inside
          omega
        have stopped : p (runEnd p (n - i) i) = false := run.right short
        have held := run'.holds r.start has'
        rw [ends, stopped] at held
        exact absurd held Bool.false_ne_true
      · rw [run'.eq_of_has run has' ⟨from_i, within⟩]
        exact .inl List.mem_cons_self

/-- The first number that the predicate holds of is in the first of the runs. -/
theorem has_first (runs : FirstRuns p n 0 limit rs) (some_limit : 0 < limit) {i : Nat}
    (inside : i < n) (here : p i = true) (before : ∀ j, j < i → p j = false) :
    ∃ r ∈ rs, r.Has i := by
  have run : Range.MaximalRun p n ⟨i, runEnd p (n - i) i⟩ :=
    maximalRun_runEnd inside here fun j next => before j (by omega)
  rcases runs.first _ run (Nat.zero_le _) with member | ⟨full, all⟩
  · exact ⟨_, member, Nat.le_refl _, run.nonempty⟩
  · cases rs with
    | nil => exact absurd full.symm (Nat.ne_of_gt some_limit)
    | cons r rs =>
      have earlier := all r List.mem_cons_self
      have maximal := (runs.maximal r List.mem_cons_self).1
      have held := maximal.holds r.start ⟨Nat.le_refl _, maximal.nonempty⟩
      rw [before r.start (Nat.lt_trans maximal.nonempty earlier)] at held
      exact absurd held Bool.false_ne_true

end FirstRuns
end

end Es3Recomp.Library
